import Mathlib.Data.Nat.Count
import SoftPatchPanel.Worker.DataTypes

/-!
# The port manager

`spp_nfv` and the forwarder of `spp_primary` keep their ports in two arrays.
`port_map[i]` says which port the ethdev `i` is, and `ports_fwd_array[i][j]` says
two things about its queue `j`: whether it is in use (`in_port_id` is not
`PORT_RESET`) and where its packets go (`out_port_id` and `out_queue_id`).  This
file is `shared/port_manager.c`, the two arrays of `basic_forwarder.h`, and the
pairs of queues that `forward` of `basic_forwarder.c` serves.

The loops of the sources go through the ports in order and, for each of them,
through as many queues as `get_port_max_queues` gives; `scan` is the list of the
places they visit.  A loop that stops at the first place with some property is
`List.find?` on it, and a loop over all of it is a fold.

An index that is not one of the array is `Fault.undefined`.
-/

namespace SoftPatchPanel.Shared

open Worker (PortType Fault Ret)
open Transition (bind_eq_ok)
open Function (update update_self update_of_ne)

/-- `PORT_RESET`, which is `UINT16_MAX`. -/
def portReset : ℕ := 65535

/-- The limits of the DPDK build.  Ethdev ids are 16-bit numbers, and `PORT_RESET`
is not one of them. -/
structure Limits where
  /-- `RTE_MAX_ETHPORTS`. -/
  maxEthports : ℕ
  /-- `RTE_MAX_QUEUES_PER_PORT`. -/
  maxQueuesPerPort : ℕ
  maxEthports_pos : 0 < maxEthports
  maxEthports_lt : maxEthports < portReset
  maxQueuesPerPort_pos : 0 < maxQueuesPerPort
  deriving DecidableEq

/-- The limits of a default build. -/
def Limits.default : Limits := ⟨32, 1024, by decide, by decide, by decide⟩

/-- The searches of the tables of ports find a place that is looked for, if there is one. -/
theorem Limits.find_spec (L : Limits) {p : ℕ → Prop} [DecidablePred p]
    (h : ∃ i < L.maxEthports, p i) :
    ((List.range L.maxEthports).find? (p ·)).getD portReset < L.maxEthports ∧
      p (((List.range L.maxEthports).find? (p ·)).getD portReset) := by
  cases hfind : (List.range L.maxEthports).find? (p ·) with
  | none =>
    obtain ⟨i, hi, hp⟩ := h
    exact absurd (decide_eq_true hp) (List.find?_eq_none.mp hfind i (List.mem_range.mpr hi))
  | some i =>
    have hp := List.find?_some hfind
    rw [decide_eq_true_eq] at hp
    exact ⟨List.mem_range.mp (List.mem_of_find?_eq_some hfind), hp⟩

theorem Limits.find_eq_portReset_iff (L : Limits) {p : ℕ → Prop} [DecidablePred p] :
    ((List.range L.maxEthports).find? (p ·)).getD portReset = portReset ↔
      ¬ ∃ i < L.maxEthports, p i := by
  constructor
  · intro heq h
    have := (L.find_spec h).1
    have := L.maxEthports_lt
    omega
  · intro h
    rw [List.find?_eq_none.mpr fun i hi hp => h ⟨i, List.mem_range.mp hi, of_decide_eq_true hp⟩]
    rfl

/-- `struct port_queue`.  `rte_eth_dev_configure` has accepted these numbers when
the primary process started, so they are within the limit. -/
structure QueueInfo (L : Limits) where
  rxq : ℕ
  txq : ℕ
  rxq_le : rxq ≤ L.maxQueuesPerPort
  txq_le : txq ≤ L.maxQueuesPerPort
  deriving DecidableEq

/-- What the pointer `stats` of a port points at. -/
inductive StatsRef where
  /-- A null pointer. -/
  | null
  /-- `default_stats` of the same entry. -/
  | own
  /-- `port_stats[i]` of the shared memory zone. -/
  | port (i : ℕ)
  /-- `client_stats[i]` of the shared memory zone. -/
  | client (i : ℤ)
  deriving DecidableEq, Repr

/-- `struct port_map`. -/
structure PortMap (L : Limits) where
  id : ℤ
  portType : PortType
  stats : StatsRef
  queueInfo : Option (QueueInfo L)
  deriving DecidableEq

/-- `struct port`.  The pointers `rx_func` and `tx_func` are set together or not at
all; `bursts` says whether they are. -/
structure FwdPort where
  inPortId : ℕ
  inQueueId : ℕ
  outPortId : ℕ
  outQueueId : ℕ
  bursts : Bool
  deriving DecidableEq, Repr

/-- `port_map` and `ports_fwd_array`. -/
@[ext]
structure Tables (L : Limits) where
  portMap : ℕ → PortMap L
  fwd : ℕ × ℕ → FwdPort

/-- What a resource UID names: a port, by its type and its number, and one of its
queues. -/
structure Uid where
  type : PortType
  id : ℤ
  queue : ℕ
  deriving DecidableEq, Repr

/-- The number is one that a port can have. -/
def Uid.WellFormed (u : Uid) : Prop := 0 ≤ u.id ∧ u.id < 2 ^ 31

instance (u : Uid) : Decidable u.WellFormed := inferInstanceAs (Decidable (_ ∧ _))

/-- The port, without the queue. -/
abbrev Uid.port (u : Uid) : PortType × ℤ := (u.type, u.id)

variable {L : Limits} {dev : ℕ → Option (PortType × ℤ)} {d : ℕ} {n : PortType × ℤ}

/-! ## Initial values -/

/-- What `port_map_init_one` writes. -/
def PortMap.reset : PortMap L := ⟨portReset, .undef, .own, none⟩

/-- What `forward_array_init_one` makes of an entry. -/
def FwdPort.reset (e : FwdPort) : FwdPort :=
  { e with inPortId := portReset, inQueueId := 0, outPortId := portReset, outQueueId := 0 }

/-- The arrays of zeroed memory; `PHY` is the first member of its enumeration. -/
def Tables.zero : Tables L where
  portMap _ := ⟨0, .phy, .null, none⟩
  fwd _ := ⟨0, 0, 0, 0, false⟩

/-- The arrays after `forward_array_init` and `port_map_init`. -/
def Tables.init : Tables L where
  portMap _ := PortMap.reset
  fwd _ := FwdPort.reset ⟨0, 0, 0, 0, false⟩

namespace Tables

/-! ## Writing one entry -/

/-- Write `port_map[i]`. -/
def setPort (t : Tables L) (i : ℕ) (m : PortMap L) : Tables L :=
  { t with portMap := Function.update t.portMap i m }

/-- Write `ports_fwd_array[p.1][p.2]`. -/
def setFwd (t : Tables L) (p : ℕ × ℕ) (e : FwdPort) : Tables L :=
  { t with fwd := Function.update t.fwd p e }

@[simp] theorem setPort_portMap_self (t : Tables L) (i : ℕ) (m : PortMap L) :
    (t.setPort i m).portMap i = m := update_self ..

variable {i : ℕ} {p q : ℕ × ℕ} {t t' : Tables L} {id : ℤ} {type : PortType}

theorem setPort_portMap_of_ne (t : Tables L) {k : ℕ} (m : PortMap L) (h : k ≠ i) :
    (t.setPort i m).portMap k = t.portMap k := update_of_ne h ..

@[simp] theorem setPort_fwd (t : Tables L) (i : ℕ) (m : PortMap L) :
    (t.setPort i m).fwd = t.fwd := rfl

@[simp] theorem setFwd_portMap (t : Tables L) (p : ℕ × ℕ) (e : FwdPort) :
    (t.setFwd p e).portMap = t.portMap := rfl

@[simp] theorem setFwd_fwd_self (t : Tables L) (p : ℕ × ℕ) (e : FwdPort) :
    (t.setFwd p e).fwd p = e := update_self ..

theorem setFwd_fwd_of_ne (t : Tables L) {k : ℕ × ℕ} (e : FwdPort) (h : k ≠ p) :
    (t.setFwd p e).fwd k = t.fwd k := update_of_ne h ..

/-- `forward_array_init_one`. -/
def forwardArrayInitOne (t : Tables L) (p : ℕ × ℕ) : Except Fault (Tables L) :=
  if p.1 < L.maxEthports ∧ p.2 < L.maxQueuesPerPort then
    .ok (t.setFwd p (t.fwd p).reset)
  else .error .undefined

/-- `port_map_init_one`. -/
def portMapInitOne (t : Tables L) (i : ℕ) : Except Fault (Tables L) :=
  if i < L.maxEthports then .ok (t.setPort i PortMap.reset) else .error .undefined

/-! ## The places the loops visit -/

/-- `get_port_max_queues`. -/
def getPortMaxQueues (t : Tables L) (i : ℕ) : ℕ :=
  match (t.portMap i).queueInfo with
  | none => 1
  | some q => if q.txq ≤ q.rxq then q.rxq else q.txq

/-- The places that a loop over the ports and their queues visits, in order. -/
def scan (t : Tables L) : List (ℕ × ℕ) :=
  (List.range L.maxEthports).flatMap fun i =>
    (List.range (t.getPortMaxQueues i)).map fun j => (i, j)

theorem getPortMaxQueues_congr (h : (t'.portMap i).queueInfo = (t.portMap i).queueInfo) :
    t'.getPortMaxQueues i = t.getPortMaxQueues i := by
  rw [getPortMaxQueues, getPortMaxQueues, h]

@[simp] theorem scan_setFwd (t : Tables L) (p : ℕ × ℕ) (e : FwdPort) :
    (t.setFwd p e).scan = t.scan := rfl

theorem getPortMaxQueues_le (t : Tables L) (i : ℕ) : t.getPortMaxQueues i ≤ L.maxQueuesPerPort := by
  unfold getPortMaxQueues
  split
  · exact L.maxQueuesPerPort_pos
  rename_i q _
  split
  · exact q.rxq_le
  · exact q.txq_le

theorem mem_scan : p ∈ t.scan ↔ p.1 < L.maxEthports ∧ p.2 < t.getPortMaxQueues p.1 := by
  obtain ⟨i, j⟩ := p
  simp only [scan, List.mem_flatMap, List.mem_range, List.mem_map, Prod.mk.injEq]
  constructor
  · rintro ⟨i', hi, j', hj, rfl, rfl⟩
    exact ⟨hi, hj⟩
  · rintro ⟨hi, hj⟩
    exact ⟨i, hi, j, hj, rfl, rfl⟩

/-- Every place is visited once. -/
theorem nodup_scan (t : Tables L) : t.scan.Nodup := by
  refine List.nodup_flatMap.mpr ⟨fun i _ => ?_, ?_⟩
  · exact List.nodup_range.map fun a b hab => (Prod.mk.inj hab).2
  refine List.nodup_range.imp fun {a b} hab => ?_
  show List.Disjoint _ _
  intro p hpa hpb
  obtain ⟨_, _, rfl⟩ := List.mem_map.mp hpa
  obtain ⟨_, _, hp⟩ := List.mem_map.mp hpb
  exact hab (Prod.mk.inj hp).1.symm

/-! ## Ports and patches -/

/-- The queue is in use. -/
def Present (t : Tables L) (p : ℕ × ℕ) : Prop := (t.fwd p).inPortId ≠ portReset

instance (t : Tables L) (p : ℕ × ℕ) : Decidable (t.Present p) :=
  inferInstanceAs (Decidable (_ ≠ _))

/-- The queue has somewhere to send its packets. -/
def Patched (t : Tables L) (p : ℕ × ℕ) : Prop := (t.fwd p).outPortId ≠ portReset

instance (t : Tables L) (p : ℕ × ℕ) : Decidable (t.Patched p) :=
  inferInstanceAs (Decidable (_ ≠ _))

/-- Where the packets of a queue go. -/
def target (t : Tables L) (p : ℕ × ℕ) : ℕ × ℕ := ((t.fwd p).outPortId, (t.fwd p).outQueueId)

/-- The port and the queue that a place stands for. -/
def uid (t : Tables L) (p : ℕ × ℕ) : Uid := ⟨(t.portMap p.1).portType, (t.portMap p.1).id, p.2⟩

/-- The assignment `ports_fwd_array[p.1][p.2].out_port_id = PORT_RESET`. -/
def unpatch (t : Tables L) (p : ℕ × ℕ) : Tables L :=
  t.setFwd p { t.fwd p with outPortId := portReset }

/-- `forward_array_reset`. -/
def forwardArrayReset (t : Tables L) : Tables L :=
  t.scan.foldl (fun t p => if t.Present p then t.unpatch p else t) t

/-- The place at which the loop of `forward_array_remove` stops: the first one that
does not satisfy the condition of the `continue`. -/
def removeStop (t : Tables L) (p : ℕ × ℕ) : Option (ℕ × ℕ) :=
  t.scan.find? fun q => ¬ (¬ t.Present q ∧ t.target q ≠ p)

/-- `forward_array_remove`. -/
def forwardArrayRemove (t : Tables L) (p : ℕ × ℕ) : Except Fault (Tables L) := do
  let t ← t.forwardArrayInitOne p
  match t.removeStop p with
  | none => return t
  | some q => return t.unpatch q

/-- `find_port_id`. -/
def findPortId (t : Tables L) (id : ℤ) (type : PortType) : ℕ :=
  ((List.range L.maxEthports).find? fun i =>
    (t.portMap i).portType = type ∧ (t.portMap i).id = id).getD portReset

/-- The port has an entry in `port_map`. -/
def Registered (t : Tables L) (type : PortType) (id : ℤ) : Prop :=
  ∃ i < L.maxEthports, (t.portMap i).portType = type ∧ (t.portMap i).id = id

theorem findPortId_eq_portReset_iff :
    t.findPortId id type = portReset ↔ ¬ t.Registered type id := L.find_eq_portReset_iff

theorem findPortId_of_registered (h : t.Registered type id) :
    t.findPortId id type < L.maxEthports ∧
      (t.portMap (t.findPortId id type)).portType = type ∧
      (t.portMap (t.findPortId id type)).id = id := L.find_spec h

/-- `is_valid_port`.  The first test lets `RTE_MAX_ETHPORTS` itself pass. -/
def isValidPort (t : Tables L) (i queue : ℕ) : Except Fault Bool :=
  if L.maxEthports < i then .ok false
  else if i < L.maxEthports then
    .ok (decide ((t.portMap i).id ≠ portReset ∧ queue < t.getPortMaxQueues i))
  else .error .undefined

/-- `is_valid_port_rxq`. -/
def isValidPortRxq (t : Tables L) (i rxq : ℕ) : Except Fault Bool :=
  if i < L.maxEthports then
    .ok (decide (rxq < ((t.portMap i).queueInfo.map QueueInfo.rxq).getD 1))
  else .error .undefined

/-- `is_valid_port_txq`. -/
def isValidPortTxq (t : Tables L) (i txq : ℕ) : Except Fault Bool :=
  if i < L.maxEthports then
    .ok (decide (txq < ((t.portMap i).queueInfo.map QueueInfo.txq).getD 1))
  else .error .undefined

/-- The assignments of `add_patch`: first those to the entry of the in port, then
those to the entry of the out port, which may be the same one. -/
def writePatch (t : Tables L) (p q : ℕ × ℕ) : Tables L :=
  let t := t.setFwd p ⟨p.1, p.2, q.1, q.2, true⟩
  t.setFwd q { t.fwd q with inPortId := q.1, inQueueId := q.2, bursts := true }

/-- `add_patch`, with its return value. -/
def addPatch (t : Tables L) (p q : ℕ × ℕ) : Except Fault (ℤ × Tables L) := do
  unless ← t.isValidPort p.1 p.2 do return (-1, t)
  unless ← t.isValidPort q.1 q.2 do return (-1, t)
  unless ← t.isValidPortRxq p.1 p.2 do return (1, t)
  unless ← t.isValidPortTxq q.1 q.2 do return (1, t)
  return (0, t.writePatch p q)

/-- The places of `port_map` and `ports_fwd_array` from which `forward` receives,
each with the place it sends to. -/
def served (t : Tables L) : List ((ℕ × ℕ) × (ℕ × ℕ)) :=
  (t.scan.filter fun p => t.Present p ∧ t.Patched p).map fun p => (p, t.target p)

/-! ## What the functions do -/

@[simp] theorem unpatch_fwd_self (t : Tables L) (p : ℕ × ℕ) :
    (t.unpatch p).fwd p = { t.fwd p with outPortId := portReset } := setFwd_fwd_self ..

theorem unpatch_fwd_of_ne (t : Tables L) (h : q ≠ p) :
    (t.unpatch p).fwd q = t.fwd q := setFwd_fwd_of_ne t _ h

/-- After the loop of `forward_array_reset` over some places, those of them that are in
use lead nowhere, and nothing else has changed. -/
theorem foldl_unpatch (ps : List (ℕ × ℕ)) (t : Tables L) :
    (ps.foldl (fun t p => if t.Present p then t.unpatch p else t) t).portMap = t.portMap ∧
    ∀ q, (ps.foldl (fun t p => if t.Present p then t.unpatch p else t) t).fwd q =
      if q ∈ ps ∧ t.Present q then { t.fwd q with outPortId := portReset } else t.fwd q := by
  induction ps generalizing t with
  | nil => simp
  | cons p ps ih =>
    rw [List.foldl_cons]
    by_cases hp : t.Present p
    · rw [if_pos hp]
      obtain ⟨hmap, hfwd⟩ := ih (t.unpatch p)
      refine ⟨hmap, fun q => ?_⟩
      rw [hfwd q]
      by_cases hq : q = p
      · subst hq
        rw [unpatch_fwd_self]
        simp only [List.mem_cons_self, hp, and_self, if_true, ite_self]
      · have hpres : (t.unpatch p).Present q ↔ t.Present q := by
          rw [Present, Present, unpatch_fwd_of_ne t hq]
        rw [unpatch_fwd_of_ne t hq]
        simp only [hpres, List.mem_cons, hq, false_or]
    · rw [if_neg hp]
      obtain ⟨hmap, hfwd⟩ := ih t
      refine ⟨hmap, fun q => ?_⟩
      rw [hfwd q]
      by_cases hq : q = p
      · subst hq
        rw [if_neg fun h => hp h.2, if_neg fun h => hp h.2]
      · simp only [List.mem_cons, hq, false_or]

@[simp] theorem forwardArrayReset_portMap (t : Tables L) :
    t.forwardArrayReset.portMap = t.portMap := (foldl_unpatch t.scan t).1

theorem forwardArrayReset_fwd (t : Tables L) (q : ℕ × ℕ) :
    t.forwardArrayReset.fwd q =
      if q ∈ t.scan ∧ t.Present q then { t.fwd q with outPortId := portReset } else t.fwd q :=
  (foldl_unpatch t.scan t).2 q

/-- `forward_array_remove` clears the entry of the queue and then stops somewhere or
nowhere. -/
theorem forwardArrayRemove_eq_ok (h : t.forwardArrayRemove p = .ok t') :
    p.1 < L.maxEthports ∧
      t' = match (t.setFwd p (t.fwd p).reset).removeStop p with
        | none => t.setFwd p (t.fwd p).reset
        | some q => (t.setFwd p (t.fwd p).reset).unpatch q := by
  unfold forwardArrayRemove forwardArrayInitOne at h
  by_cases hp : p.1 < L.maxEthports ∧ p.2 < L.maxQueuesPerPort
  · rw [if_pos hp] at h
    refine ⟨hp.1, ?_⟩
    change (match (t.setFwd p (t.fwd p).reset).removeStop p with
      | none => Except.ok (t.setFwd p (t.fwd p).reset)
      | some q => Except.ok ((t.setFwd p (t.fwd p).reset).unpatch q)) = Except.ok t' at h
    split at h <;> exact (Except.ok.inj h).symm
  · rw [if_neg hp] at h
    cases h

theorem forwardArrayRemove_portMap
    (h : t.forwardArrayRemove p = .ok t') : t'.portMap = t.portMap := by
  obtain ⟨-, rfl⟩ := forwardArrayRemove_eq_ok h
  split <;> rfl

theorem isValidPort_eq_true {queue : ℕ} (h : t.isValidPort i queue = .ok true) :
    i < L.maxEthports ∧ (t.portMap i).id ≠ portReset ∧ queue < t.getPortMaxQueues i := by
  unfold isValidPort at h
  split at h
  · cases h
  split at h
  · rename_i hi
    exact ⟨hi, of_decide_eq_true (Except.ok.inj h)⟩
  · cases h

/-- A patch is accepted only between queues of registered ports. -/
theorem addPatch_eq_zero (h : t.addPatch p q = .ok (0, t')) :
    (p.1 < L.maxEthports ∧ (t.portMap p.1).id ≠ portReset ∧ p.2 < t.getPortMaxQueues p.1) ∧
    (q.1 < L.maxEthports ∧ (t.portMap q.1).id ≠ portReset ∧ q.2 < t.getPortMaxQueues q.1) ∧
    t' = t.writePatch p q := by
  unfold addPatch at h
  obtain ⟨_ | _, hp, h⟩ := bind_eq_ok.mp h
  · cases h
  obtain ⟨_ | _, hq, h⟩ := bind_eq_ok.mp h
  · cases h
  obtain ⟨_ | _, -, h⟩ := bind_eq_ok.mp h
  · cases h
  obtain ⟨_ | _, -, h⟩ := bind_eq_ok.mp h
  · cases h
  · cases h
    exact ⟨isValidPort_eq_true hp, isValidPort_eq_true hq, rfl⟩

end Tables

/-- `portmap`, without the entry that ends it. -/
def portmap : List (CString × PortType) :=
  [("phy", .phy), ("ring", .ring), ("vhost", .vhost),
    ("pcap", .pcap), ("nullpmd", .nullpmd), ("tap", .tap),
    ("memif", .memif)]

/-- `get_port_type`: the first name that the given one begins with. -/
def getPortType (portname : CString) : PortType :=
  (((portmap.find? fun e => e.1.isPrefixOf portname).map Prod.snd).getD .undef)

/-- `MAX_CLIENT`, the size of `client_stats`. -/
def maxClient : ℕ := 99

/-- `snprintf(buffer, sizeof(buffer) - 1, FORMAT, id)` with `buffer[sizeof(FORMAT) + 2]`,
where the format is a word followed by `%u`: the word and three digits fit. -/
def numberedName (word : CString) (id : ℤ) : CString :=
  (word ++ Nat.toDigits 10 (id % 2 ^ 32).toNat).take (word.length + 3)

/-! ## What is there when a process starts -/

/-- The ethdevs that exist when the process starts, with the type and the id that
`parse_dev_name` reads off their names, and the queues the primary has set up.
`parse_dev_name` takes what it does not know for a physical port. -/
structure Host (L : Limits) where
  dev : ℕ → Option (PortType × ℤ)
  queueInfo : ℕ → QueueInfo L
  dev_lt : ∀ i, (dev i).isSome → i < L.maxEthports
  dev_ne_undef : ∀ i n, dev i = some n → (n.1 ≠ .undef)

/-- `rte_eth_dev_count_avail`, up to `RTE_MAX_ETHPORTS`. -/
def Host.nbPorts (host : Host L) : ℕ :=
  (List.range L.maxEthports).countP fun i => (host.dev i).isSome

/-- The ethdev is a physical port. -/
abbrev Host.IsPhy (host : Host L) (i : ℕ) : Prop := (host.dev i).map Prod.fst = some .phy

/-- The port that an ethdev is the device of.  Physical ports are numbered in the order
of their ethdevs. -/
def deviceOf (host : Host L) (i : ℕ) : Option (PortType × ℤ) :=
  (host.dev i).map fun n => if n.1 = .phy then (.phy, (Nat.count host.IsPhy i : ℤ)) else n

/-- No two ethdevs are the devices of one port. -/
def DistinctDevices (dev : ℕ → Option (PortType × ℤ)) : Prop :=
  ∀ i k n, dev i = some n → dev k = some n → i = k

theorem DistinctDevices.update_some (h : DistinctDevices dev) (hnew : ∀ k, k ≠ d → dev k ≠ some n) :
    DistinctDevices (update dev d (some n)) := by
  intro i k m hi hk
  by_cases hid : i = d
  · by_cases hkd : k = d
    · rw [hid, hkd]
    · rw [hid, update_self] at hi
      rw [update_of_ne hkd, ← hi] at hk
      exact absurd hk (hnew k hkd)
  rw [update_of_ne hid] at hi
  by_cases hkd : k = d
  · rw [hkd, update_self] at hk
    rw [← hk] at hi
    exact absurd hi (hnew i hid)
  · rw [update_of_ne hkd] at hk
    exact h i k m hi hk

theorem eq_some_of_update_none {k : ℕ}
    (h : update dev d none k = some n) : k ≠ d ∧ dev k = some n := by
  by_cases hkd : k = d
  · rw [hkd, update_self] at h
    cases h
  · rw [update_of_ne hkd] at h
    exact ⟨hkd, h⟩

theorem DistinctDevices.update_none (h : DistinctDevices dev)
    (d : ℕ) : DistinctDevices (update dev d none) := by
  intro i k n hi hk
  exact h i k n (eq_some_of_update_none hi).2 (eq_some_of_update_none hk).2

theorem update_ne_some {m : PortType × ℤ} (h : n ≠ m)
    (hdev : ∀ i, dev i ≠ some m) (i : ℕ) : update dev d (some n) i ≠ some m := by
  by_cases hi : i = d
  · rw [hi, update_self]
    exact fun heq => h (Option.some.inj heq)
  · rw [update_of_ne hi]
    exact hdev i

/-- A machine on which no ethdev exists yet. -/
def Host.empty (L : Limits) : Host L where
  dev _ := none
  queueInfo _ := ⟨0, 0, by omega, by omega⟩
  dev_lt i h := by cases h
  dev_ne_undef i n h := by cases h

end SoftPatchPanel.Shared
