import SoftPatchPanel.Foundation.CString
import SoftPatchPanel.Foundation.CountedArray
import SoftPatchPanel.Foundation.DoubleBuffer

/-!
# The data of a worker process

`spp_vf` and `spp_mirror` are secondary processes built from one set of sources
(`shared/secondary/spp_worker_th`), with a few functions of their own.  Their
command thread keeps the *management data* --- which component runs on which
lcore, which ports it reads and writes, what is attached to each port --- and the
worker threads read tables derived from it.  This file is `data_types.h`, the
structures of `cmd_utils.h` and `cmd_parser.h`, and the parameters that the
process is started with.

A `struct sppwk_port_info *` always points into the interface table, so a pointer
is modelled by the place it points at, `PortRef`, and pointer comparison by
equality of places.  Arrays are functions on indices with their counter beside
them (`Foundation.CountedArray`), so that memory past the counter is there as it
is in C.

Calls that the C standard gives no meaning to, and waits that nobody will ever
answer, are `Fault`s: a function that can run into one returns `Except Fault`.
-/

namespace SoftPatchPanel.Worker

/-- Under a name, so that the places of a list of attributes are the same terms throughout. -/
instance neZero_four : NeZero 4 := ⟨four_ne_zero⟩

/-! ## Enumerations -/

/-- `enum port_type` of `common.h`. -/
inductive PortType where
  | phy | ring | vhost | pcap | nullpmd | tap | memif | pipe | undef
  deriving DecidableEq, Repr

/-- `enum sppwk_lcore_status`. -/
inductive LcoreStatus where
  | unused | stopped | idling | running | reqStop
  deriving DecidableEq, Repr

/-- `enum sppwk_port_dir`. -/
inductive PortDir where
  | none | rx | tx | both
  deriving DecidableEq, Repr

/-- The other direction of `rx` is `tx`, and conversely. -/
def PortDir.Opposite (d d' : PortDir) : Prop := (d = .rx ∧ d' = .tx) ∨ (d = .tx ∧ d' = .rx)

theorem PortDir.eq_or_opposite {d d' : PortDir} (hd : d = .rx ∨ d = .tx)
    (hd' : d' = .rx ∨ d' = .tx) : d' = d ∨ d.Opposite d' := by
  rcases hd with rfl | rfl
  · rcases hd' with rfl | rfl
    · exact .inl rfl
    · exact .inr (.inl ⟨rfl, rfl⟩)
  · rcases hd' with rfl | rfl
    · exact .inr (.inr ⟨rfl, rfl⟩)
    · exact .inl rfl

/-- `enum sppwk_port_ops`. -/
inductive PortOps where
  | none | addVlan | delVlan
  deriving DecidableEq, Repr

/-- `enum sppwk_worker_type`. -/
inductive WorkerType where
  | none | cls | mrg | fwd | mir
  deriving DecidableEq, Repr

/-- `enum sppwk_action`. -/
inductive Action where
  | none | start | stop | add | del
  deriving DecidableEq, Repr

/-- `enum sppwk_cls_type`. -/
inductive ClsType where
  | none | mac | vlan
  deriving DecidableEq, Repr

/-- `enum sppwk_return_val`. -/
inductive Ret where
  | ok | ng
  deriving DecidableEq, Repr

/-- Why a call has no result. -/
inductive Fault where
  /-- The C standard gives the call no meaning: an index outside an array, a
  string longer than the buffer it is copied to, a null pointer. -/
  | undefined
  /-- The command thread waits for a worker that does not exist. -/
  | blocked
  deriving DecidableEq, Repr

/-! ## Constants -/

/-- `PORT_CAPABL_MAX`. -/
abbrev portCapablMax : ℕ := 4

/-- `ETH_VLAN_ID_MAX`. -/
def ethVlanIdMax : ℤ := 4095

/-- `DEFAULT_QUEUE_ID`. -/
def defaultQueueId : ℤ := 0

/-- `SPP_VLAN_PCP_MAX`. -/
def sppVlanPcpMax : ℤ := 7

/-- `CLS_DUMMY_ADDR`, the address that stands for the word `default`. -/
def clsDummyAddr : BitVec 64 := 0x010000000000#64

/-- `CLS_DUMMY_ADDR_STR`. -/
def clsDummyAddrStr : CString := "00:00:00:00:00:01"

/-- `STR_LEN_SHORT`, the size of a short string buffer. -/
def strLenShort : ℕ := 32

/-- An index into a table with `TWO_SIDES` sides. -/
abbrev Side := Fin 2

/-! ## Ports -/

/-- `struct sppwk_vlan_tag`. -/
structure VlanTag where
  vid : ℤ
  pcp : ℤ
  tci : ℤ
  deriving DecidableEq, Repr

/-- `struct sppwk_port_attrs`; the union `capability` has the VLAN tag as its
only member. -/
structure PortAttrs where
  ops : PortOps
  dir : PortDir
  vlantag : VlanTag
  deriving DecidableEq, Repr

/-- An attribute of zeroed memory. -/
def PortAttrs.zero : PortAttrs := ⟨.none, .none, ⟨0, 0, 0⟩⟩

/-- `struct sppwk_cls_attrs`. -/
structure ClsAttrs where
  macAddr : BitVec 64
  macAddrStr : CString
  vlantag : VlanTag
  deriving DecidableEq, Repr

/-- `struct sppwk_port_idx`. -/
structure PortIdx where
  ifaceType : PortType
  ifaceNo : ℤ
  queueNo : ℤ
  deriving DecidableEq, Repr

/-- A port of zeroed memory; `PHY` is the first member of its enumeration. -/
def PortIdx.zero : PortIdx := ⟨.phy, 0, 0⟩

/-- A place in `struct iface_info`: the value of a pointer to a port. -/
inductive PortRef where
  | phy (ifaceNo queueNo : ℕ)
  | vhost (ifaceNo : ℕ)
  | ring (ifaceNo : ℕ)
  deriving DecidableEq, Repr

/-- `struct sppwk_port_info`. -/
structure PortInfo where
  ifaceType : PortType
  ifaceNo : ℤ
  ethdevPortId : ℤ
  queueNo : ℤ
  clsAttrs : ClsAttrs
  portAttrs : Fin portCapablMax → PortAttrs

/-! ## Components and cores -/

/-- `struct sppwk_comp_info`. -/
structure CompInfo where
  name : CString
  wkType : WorkerType
  lcoreId : ℕ
  compId : ℕ
  nofRx : ℕ
  nofTx : ℕ
  rxPorts : ℕ → Option PortRef
  txPorts : ℕ → Option PortRef

/-- A component slot of zeroed memory. -/
def CompInfo.zero : CompInfo := ⟨[], .none, 0, 0, 0, 0, fun _ => none, fun _ => none⟩

/-- The ports a component lists in a direction.  As everywhere in the sources,
anything that is not `rx` means the transmitting side. -/
def CompInfo.ports (c : CompInfo) (dir : PortDir) : List PortRef :=
  match dir with
  | .rx => (CountedArray.slice c.nofRx c.rxPorts).reduceOption
  | _ => (CountedArray.slice c.nofTx c.txPorts).reduceOption

/-- `struct core_info`: the ids of the components run on an lcore. -/
structure CoreInfo where
  num : ℤ
  id : ℕ → ℕ

/-- The visible part `id[0..num)`. -/
def CoreInfo.ids (c : CoreInfo) : List ℕ := CountedArray.slice c.num.toNat c.id

/-- `struct core_mng_info`. -/
structure CoreMngInfo where
  status : LcoreStatus
  refIndex : Side
  updIndex : Side
  core : Side → CoreInfo

/-- The list of ids the worker of the lcore runs, `core[ref_index]`. -/
def CoreMngInfo.ref (c : CoreMngInfo) : CoreInfo := c.core c.refIndex

/-- The management data: `struct mng_data_info` with what its pointers point
at.  The backup area is written by every flush and read by nothing, so it is
left out. -/
structure MngData where
  iface : PortRef → PortInfo
  comp : ℕ → CompInfo
  core : ℕ → CoreMngInfo
  changeCore : ℕ → Bool
  changeComp : ℕ → Bool

/-! ## What the process is started with -/

/-- Which of the two programs the sources are compiled to. -/
inductive Module where
  | vf | mirror
  deriving DecidableEq, Repr

/-- `struct port_queue`. -/
structure PortQueue where
  rxq : ℕ
  txq : ℕ
  deriving DecidableEq, Repr

/-- The parameters that are fixed when the process starts: the limits of the
DPDK build, the lcores the process was given, and what the primary process has
set up before it. -/
structure Platform where
  module : Module
  /-- `RTE_MAX_LCORE`. -/
  maxLcore : ℕ
  /-- `RTE_MAX_ETHPORTS`. -/
  maxEthports : ℕ
  /-- `RTE_MAX_QUEUES_PER_PORT`. -/
  maxQueuesPerPort : ℕ
  /-- The lcore of the command thread. -/
  master : ℕ
  /-- The lcores that `RTE_LCORE_FOREACH_SLAVE` enumerates: one worker each. -/
  slave : ℕ → Bool
  /-- The queue counts the primary has put in the shared memory zone. -/
  queueInfo : ℕ → PortQueue
  /-- Type and id that `parse_dev_name` finds in the name of each valid ethdev. -/
  hostDev : ℕ → Option (PortType × ℕ)
  master_lt : master < maxLcore
  slave_lt : ∀ l, slave l = true → l < maxLcore
  master_not_slave : slave master = false
  /-- DPDK counts the queues of a port and the references to an mbuf in 16 bits. -/
  maxQueuesPerPort_lt : maxQueuesPerPort < 2 ^ 15

/-- A process on a default build of DPDK: the command thread on lcore 1, workers on
lcores 2 and 3, and two physical ports, the second of which has two queues. -/
def Platform.sample (module : Module) : Platform where
  module := module
  maxLcore := 128
  maxEthports := 32
  maxQueuesPerPort := 1024
  master := 1
  slave l := l = 2 ∨ l = 3
  queueInfo port := if port = 0 then ⟨1, 1⟩ else if port = 1 then ⟨2, 2⟩ else ⟨0, 0⟩
  hostDev port := if port < 2 then some (.phy, port) else none
  master_lt := by decide
  slave_lt := by
    intro l hl
    have h : l = 2 ∨ l = 3 := of_decide_eq_true hl
    omega
  master_not_slave := by decide
  maxQueuesPerPort_lt := by decide

end SoftPatchPanel.Worker
