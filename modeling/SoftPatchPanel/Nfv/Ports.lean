import SoftPatchPanel.Shared.PortManager
import SoftPatchPanel.Shared.ResourceUid

/-!
# Adding and deleting ports in `spp_nfv`

`do_add` and `do_del` of `nfv/commands.h`.  Both go through the same five types of
port, which differ in the PMD call and in nothing else; `portTypes` is the chain of
comparisons.  A name that is none of the five passes through the chain with the
initial values of the local variables: `do_add` then has `UNDEF` for the type and 0
for the result of the PMD, and `do_del` has `PORT_RESET` for the ethdev.
-/

namespace SoftPatchPanel.Nfv

open Shared
open Worker (PortType Fault Ret)

variable {L : Limits}

/-- The names `do_add` and `do_del` compare `p_type` with. -/
def portTypes : List (CString × PortType) :=
  [("vhost", .vhost), ("ring", .ring), ("pcap", .pcap),
    ("memif", .memif), ("nullpmd", .nullpmd)]

/-- The branch of the chain that the name selects. -/
def supported (pType : CString) : Option PortType := portTypes.lookup pType

/-- The tail of `do_add`, for the id of the ethdev that was added: register it and
mark the queue as used. -/
def register (t : Tables L) (portId : ℕ) (type : PortType) (pId : ℤ) (queueId : ℕ) :
    Except Fault (Tables L) :=
  if portId < L.maxEthports ∧ queueId < L.maxQueuesPerPort then
    let m := t.portMap portId
    let t := t.setPort portId
      ⟨pId, type, if type = .ring then .client pId else m.stats, none⟩
    let e := t.fwd (portId, queueId)
    .ok (t.setFwd (portId, queueId) { e with inPortId := portId, inQueueId := queueId })
  else .error .undefined

/-- `do_add`.  `pmd` is what the function of the PMD returns: the id of an ethdev, or a
negative number. -/
def doAdd (t : Tables L) (pmd : ℤ) (pType : CString) (pId : ℤ) (queueId : ℕ) :
    Except Fault (Ret × Tables L) :=
  match supported pType with
  | some type =>
    if pmd < 0 then .ok (.ng, t)
    else (Prod.mk .ok) <$> register t (uint16OfLong pmd) type pId queueId
  | none => (Prod.mk .ok) <$> register t 0 .undef pId queueId

/-- The tail of `do_del`: clear the entry of the queue and that of the port. -/
def unregister (t : Tables L) (portId queueId : ℕ) : Except Fault (Tables L) := do
  let t ← t.forwardArrayRemove (portId, queueId)
  t.portMapInitOne portId

/-- `do_del`.  What `dev_detach_by_port_id` returns is not looked at, so it does not
matter here; the calls that stop and close a ring return nothing. -/
def doDel (t : Tables L) (pType : CString) (pId : ℤ) (queueId : ℕ) :
    Except Fault (Ret × Tables L) :=
  match supported pType with
  | some type =>
    if t.findPortId pId type = portReset then .ok (.ng, t)
    else (Prod.mk .ok) <$> unregister t (t.findPortId pId type) queueId
  | none => (Prod.mk .ok) <$> unregister t portReset queueId

/-! ## Start-up -/

/-- The entry of a port found at start-up: it has the queues that the primary has set
up, and all of them are in use. -/
def enterAt (host : Host L) (t : Tables L) (i : ℕ) (type : PortType) (id : ℤ) : Tables L :=
  let t := t.setPort i ⟨id, type, .port i, some (host.queueInfo i)⟩
  { t with
    fwd := fun p =>
      if p.1 = i ∧ p.2 < t.getPortMaxQueues i then
        { t.fwd p with inPortId := i, inQueueId := p.2 }
      else t.fwd p }

/-- One pass of the loop of `main` that enters the ports found at start-up, with the
number of physical ports so far.  Physical ports are numbered in the order they are
found in; vhosts and pipes are left to the process that uses them. -/
def enterPort (host : Host L) (acc : ℕ × Tables L) (i : ℕ) : ℕ × Tables L :=
  match host.dev i with
  | none => acc
  | some (type, id) =>
    if type = .phy then (acc.1 + 1, enterAt host acc.2 i .phy acc.1)
    else if type = .vhost ∨ type = .pipe then acc
    else (acc.1, enterAt host acc.2 i type id)

/-- The two arrays when the process starts to read commands. -/
def startUp (host : Host L) : Tables L :=
  ((List.range host.nbPorts).foldl (enterPort host) (0, Tables.init)).2

end SoftPatchPanel.Nfv
