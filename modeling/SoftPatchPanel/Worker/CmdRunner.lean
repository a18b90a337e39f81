import SoftPatchPanel.Vf.ClassifierTable
import SoftPatchPanel.Vf.ForwarderTable
import SoftPatchPanel.Worker.AcceptedRequests

/-!
# `vf_cmd_runner.c`, `mir_cmd_runner.c` and `cmd_runner.c`: executing a command

A command is executed in two steps.  First `update_cls_table`, `update_comp` or
`update_port` changes the management data and sets flags for the lcores and
components that are affected.  Then `flush_cmd` brings the rest into line: devices
are created for new ports (`update_port_info`), the changed lcores exchange their
id lists with their workers (`update_lcore_info`), and the tables of the changed
components are rebuilt (`update_comp_info`).

The first step either changes everything it has to or nothing.  The flush can stop
in the middle, when a device cannot be created or a table cannot be built; the
changes of the first step then stay.

`spp_vf` and `spp_mirror` have their own copies of `update_comp` and `update_port`.
The copies differ in the limits on ports and in the clean-up of classifiers, so
there is one definition of each here with `Platform.module` deciding.
-/

namespace SoftPatchPanel.Worker

open Vf

/-- The global data of a worker process. -/
structure State where
  mng : MngData
  /-- `cls_mng_info_list`. -/
  cls : ℕ → ClsMngInfo
  /-- `g_forward_info` of `spp_vf`, `g_mirror_info` of `spp_mirror`. -/
  path : ℕ → PathInfo
  cap : PortCapability

/-- What the environment contributes to one command: the answers of the drivers and
of the allocator, and when a worker changes its classifier index. -/
structure Env where
  pmd : PmdEnv
  hash : HashEnv
  early : Bool

variable (P : Platform)

/-! ## `update_cls_table` -/

/-- The attributes of a port without an entry. -/
def ClsAttrs.cleared (a : ClsAttrs) : ClsAttrs :=
  { a with macAddr := 0#64, macAddrStr := [], vlantag := { a.vlantag with vid := ethVlanIdMax } }

/-- The attributes of a port with an entry. -/
def ClsAttrs.entered (a : ClsAttrs) (vid : ℤ) (mac : BitVec 64) (macStr : CString) : ClsAttrs :=
  { a with macAddr := mac, macAddrStr := macStr, vlantag := { a.vlantag with vid := vid } }

/-- The checks and the assignment of `update_cls_table` on one port. -/
def updateClsAttrs (a : ClsCmdAttrs) (mac : BitVec 64) (attrs : ClsAttrs) : Option ClsAttrs :=
  match a.wkAction with
  | .del =>
    if attrs.vlantag.vid ≠ 0 ∧ attrs.vlantag.vid ≠ a.vid then none
    else if attrs.macAddr ≠ 0 ∧ attrs.macAddr ≠ mac then none
    else some attrs.cleared
  | .add =>
    if attrs.vlantag.vid ≠ ethVlanIdMax then none
    else if attrs.macAddr ≠ 0 then none
    else some (attrs.entered a.vid mac a.mac)
  | _ => some attrs

/-- Assign the classifying attributes of a port. -/
def MngData.setClsAttrs (m : MngData) (r : PortRef) (attrs : ClsAttrs) : MngData :=
  { m with iface := Function.update m.iface r { m.iface r with clsAttrs := attrs } }

/-- `update_cls_table`. -/
def updateClsTable (m : MngData) (a : ClsCmdAttrs) : Except Fault (Ret × MngData) := do
  let mac ← sppwkConvertMacStrToInt64 a.mac
  if mac = -1#64 then .ok (.ng, m)
  else
    match ← getSppwkPort P a.port.ifaceType a.port.ifaceNo a.port.queueNo with
    | none => .ok (.ng, m)
    | some r =>
      if (m.iface r).ifaceType = .undef then .ok (.ng, m)
      else
        match updateClsAttrs a mac (m.iface r).clsAttrs with
        | none => .ok (.ng, m)
        | some attrs => do
          let m' ← setComponentChangePort P (m.setClsAttrs r attrs) (m.iface r) .tx
          .ok (.ok, m')

/-! ## `update_comp` -/

/-- The slot of a component that has just been started. -/
def startedComp (c : CmdComp) (id : ℕ) : CompInfo :=
  { CompInfo.zero with name := c.name, wkType := c.wkType, lcoreId := c.core, compId := id }

/-- Append an id to a list of ids. -/
def CoreInfo.push (core : CoreInfo) (id : ℕ) : CoreInfo :=
  ⟨core.num + 1, Function.update core.id core.num.toNat id⟩

/-- Delete an id from a list of ids. -/
def CoreInfo.remove (core : CoreInfo) (id : ℕ) : CoreInfo :=
  ⟨core.num - 1, (delCompInfo id core.num core.id).2⟩

/-- Change the side of an lcore that the command thread prepares. -/
def CoreMngInfo.editUpd (c : CoreMngInfo) (f : CoreInfo → CoreInfo) : CoreMngInfo :=
  { c with core := Function.update c.core c.updIndex (f (c.core c.updIndex)) }

/-- The effect of a start in a free slot. -/
def MngData.startComp (m : MngData) (c : CmdComp) (id : ℕ) : MngData :=
  { m with
    comp := Function.update m.comp id (startedComp c id)
    core := Function.update m.core c.core ((m.core c.core).editUpd (·.push id))
    changeComp := Function.update m.changeComp id true
    changeCore := Function.update m.changeCore c.core true }

/-- The effect of a stop. -/
def MngData.stopComp (m : MngData) (id : ℕ) : MngData :=
  let l := (m.comp id).lcoreId
  { m with
    comp := Function.update m.comp id .zero
    core := Function.update m.core l ((m.core l).editUpd (·.remove id))
    changeComp := Function.update m.changeComp id false
    changeCore := Function.update m.changeCore l true }

/-- The clean-up of classifiers in `update_comp` of `spp_vf`.  It looks at the type
in a slot that has already been cleared. -/
def cleanUpClassifier (m : MngData) (id : ℕ) (cls : ℕ → ClsMngInfo) : ℕ → ClsMngInfo :=
  if P.module = .vf ∧ (m.comp id).wkType = .cls then Function.update cls id .zero else cls

/-- `update_comp`. -/
def updateComp (s : State) (c : CmdComp) : Except Fault (Ret × State) :=
  match c.wkAction with
  | .start =>
    if (s.mng.core c.core).status = .unused then .ok (.ng, s)
    else if (sppwkGetLcoreId P s.mng c.name).isSome then .ok (.ng, s)
    else
      match getFreeLcoreId P s.mng with
      | none => .ok (.ng, s)
      | some id =>
        let num := ((s.mng.core c.core).core (s.mng.core c.core).updIndex).num
        if num < 0 ∨ P.maxLcore ≤ num then .error .undefined
        else .ok (.ok, { s with mng := s.mng.startComp c id })
  | .stop =>
    match sppwkGetLcoreId P s.mng c.name with
    | none => .ok (.ok, s)
    | some id =>
      let m := s.mng.stopComp id
      .ok (.ok, { s with mng := m, cls := cleanUpClassifier P m id s.cls })
  | _ => .ok (.ng, { s with
      mng := { s.mng with changeCore := Function.update s.mng.changeCore 0 true } })

/-! ## `update_port` -/

/-- `check_vf_port_count`. -/
def checkVfPortCount (compType : WorkerType) (dir : PortDir) (nofRx nofTx : ℕ) : Ret :=
  let nofRx := if dir = .rx then nofRx + 1 else nofRx
  let nofTx := if dir = .rx then nofTx else nofTx + 1
  match compType with
  | .fwd => if nofRx > 1 ∨ nofTx > 1 then .ng else .ok
  | .mrg => if nofTx > 1 then .ng else .ok
  | .cls => if nofRx > 1 then .ng else .ok
  | _ => .ng

/-- `check_mir_port_count`. -/
def checkMirPortCount (dir : PortDir) (nofRx nofTx : ℕ) : Ret :=
  let nofRx := if dir = .rx then nofRx + 1 else nofRx
  let nofTx := if dir = .rx then nofTx else nofTx + 1
  if nofRx > 1 ∨ nofTx > 2 then .ng else .ok

/-- The check that `update_port` makes first. -/
def checkPortCount (c : CompInfo) (dir : PortDir) : Ret :=
  match P.module with
  | .vf => checkVfPortCount c.wkType dir c.nofRx c.nofTx
  | .mirror => checkMirPortCount dir c.nofRx c.nofTx

/-- The bound that `update_port` puts on the number of ports. -/
def maxPorts : ℕ :=
  match P.module with
  | .vf => P.maxQueuesPerPort
  | .mirror => P.maxEthports

/-- The counter of a direction. -/
def CompInfo.nof (c : CompInfo) (dir : PortDir) : ℕ :=
  match dir with
  | .rx => c.nofRx
  | _ => c.nofTx

/-- The array of a direction. -/
def CompInfo.array (c : CompInfo) (dir : PortDir) : ℕ → Option PortRef :=
  match dir with
  | .rx => c.rxPorts
  | _ => c.txPorts

/-- Replace counter and array of a direction. -/
def CompInfo.setPorts (c : CompInfo) (dir : PortDir) (n : ℕ) (a : ℕ → Option PortRef) : CompInfo :=
  match dir with
  | .rx => { c with nofRx := n, rxPorts := a }
  | _ => { c with nofTx := n, txPorts := a }

/-- Store a port behind the last one. -/
def CompInfo.addPort (c : CompInfo) (dir : PortDir) (r : PortRef) : CompInfo :=
  c.setPorts dir (c.nof dir + 1) (Function.update (c.array dir) (c.nof dir) (some r))

/-- Delete a port, if it is there. -/
def CompInfo.delPort (c : CompInfo) (dir : PortDir) (r : PortRef) : CompInfo :=
  match deletePortInfo r (c.nof dir) (c.array dir) with
  | (.ok, a) => c.setPorts dir (c.nof dir - 1) a
  | (.ng, _) => c

/-- The first attribute slot of a port with the given operation. -/
def PortInfo.slotOf (port : PortInfo) (ops : PortOps) : Option (Fin portCapablMax) :=
  (List.finRange portCapablMax).find? fun i => (port.portAttrs i).ops = ops

/-- Store an attribute. -/
def PortInfo.setAttr (port : PortInfo) (i : Fin portCapablMax) (a : PortAttrs) : PortInfo :=
  { port with portAttrs := Function.update port.portAttrs i a }

/-- Clear the attributes of a direction. -/
def PortInfo.clearAttrs (port : PortInfo) (dir : PortDir) : PortInfo :=
  { port with portAttrs := fun i =>
      if (port.portAttrs i).ops ≠ .none ∧ (port.portAttrs i).dir = dir then .zero
      else port.portAttrs i }

/-- Change one port and one component, and flag the component. -/
def MngData.editPort (m : MngData) (id : ℕ) (r : PortRef) (port : PortInfo) (comp : CompInfo) :
    MngData :=
  { m with
    iface := Function.update m.iface r port
    comp := Function.update m.comp id comp
    changeComp := Function.update m.changeComp id true }

/-- A port that is already in the list: only a tag to be added is taken over, into
the first slot with such a tag. -/
def addListedPort (m : MngData) (id : ℕ) (r : PortRef) (attrs : PortAttrs) : Ret × MngData :=
  if attrs.ops = .addVlan then
    match (m.iface r).slotOf .addVlan with
    | none => (.ng, m)
    | some i => (.ok, m.editPort id r ((m.iface r).setAttr i attrs) (m.comp id))
  else (.ok, m)

/-- A port that is not yet in the list. -/
def addNewPort (m : MngData) (id : ℕ) (p : CmdPort) (r : PortRef) : Ret × MngData :=
  let typed := fun port : PortInfo => { port with ifaceType := p.port.ifaceType }
  if maxPorts P ≤ (m.comp id).nof p.dir then (.ng, m)
  else if p.portAttrs.ops ≠ .none then
    match (m.iface r).slotOf .none with
    | none => (.ng, m)
    | some i => (.ok, m.editPort id r (typed ((m.iface r).setAttr i p.portAttrs))
        ((m.comp id).addPort p.dir r))
  else (.ok, m.editPort id r (typed (m.iface r)) ((m.comp id).addPort p.dir r))

/-- `update_port`. -/
def updatePort (m : MngData) (p : CmdPort) : Except Fault (Ret × MngData) :=
  match sppwkGetLcoreId P m p.name with
  | none => .ok (.ng, m)
  | some id => do
    match ← getSppwkPort P p.port.ifaceType p.port.ifaceNo p.port.queueNo with
    | none => .error .undefined
    | some r =>
      match p.wkAction with
      | .add =>
        if checkPortCount P (m.comp id) p.dir = .ng then .ok (.ng, m)
        else if (getIdxPortInfo r ((m.comp id).nof p.dir) ((m.comp id).array p.dir)).isSome then
          .ok (addListedPort m id r p.portAttrs)
        else .ok (addNewPort P m id p r)
      | .del =>
        .ok (.ok, m.editPort id r ((m.iface r).clearAttrs p.dir) ((m.comp id).delPort p.dir r))
      | _ => .ok (.ng, m)

/-! ## `flush_cmd` -/

/-- A worker runs the component, and will answer its update. -/
def served (m : MngData) (id : ℕ) : Bool :=
  (List.range P.maxLcore).any fun l => P.slave l && (m.core l).ref.ids.contains id

/-- `update_classifier`, with the swaps of the port attributes that the worker makes
along with its index. -/
def refreshClassifier (E : Env) (s : State) (comp : CompInfo) : Ret × State :=
  let g := s.cls comp.compId
  let r := updateClassifier E.hash E.early comp.name (comp.portInfos s.mng.iface .rx)
    (comp.portInfos s.mng.iface .tx) g
  let cap := if E.early ∧ g.refIndex = g.updIndex then s.cap.swapRef else s.cap
  (r.1, { s with
    cls := Function.update s.cls comp.compId r.2
    cap := if r.1 = .ok then cap.swapRef else cap })

/-- `update_forwarder` or `update_mirror`, with the swap of the port attributes. -/
def refreshPath (s : State) (comp : CompInfo) : Ret × State :=
  let update := match P.module with
    | .vf => updateForwarder
    | .mirror => updateMirror
  let r := update comp.name comp.wkType (comp.portInfos s.mng.iface .rx)
    (comp.portInfos s.mng.iface .tx) (s.path comp.compId)
  (r.1, { s with
    path := Function.update s.path comp.compId r.2
    cap := if r.1 = .ok then s.cap.swapRef else s.cap })

/-- Rebuild the table of a component. -/
def refreshComp (E : Env) (s : State) (comp : CompInfo) : Ret × State :=
  if P.module = .vf ∧ comp.wkType = .cls then refreshClassifier E s comp
  else refreshPath P s comp

/-- The ports of a component have places in `ports` of `struct forward_path` and `struct
mirror_path`, arrays of `RTE_MAX_ETHPORTS` elements.  The arrays of a classifier have as many
places as a component may have ports. -/
def portsFit (comp : CompInfo) : Bool :=
  (P.module = .vf ∧ comp.wkType = .cls) ∨
    (comp.ports .rx).length ≤ P.maxEthports ∧ (comp.ports .tx).length ≤ P.maxEthports

/-- One round of `update_comp_info`. -/
def updateOneComp (E : Env) (s : State) (cnt : ℕ) : Except Fault (Ret × State) := do
  let cap ← sppwkUpdatePortDir P s.mng.iface (s.mng.comp cnt) s.cap
  let r := refreshComp P E { s with cap := cap } (s.mng.comp cnt)
  if r.1 = .ok ∧ !portsFit P (s.mng.comp cnt) then .error .undefined
  else if r.1 = .ok ∧ !served P s.mng (s.mng.comp cnt).compId then .error .blocked
  else .ok r

/-- `update_comp_info`, over the slots still to do. -/
def updateCompInfo (E : Env) : List ℕ → State → Except Fault (Ret × State)
  | [], s => .ok (.ok, s)
  | cnt :: rest, s =>
    if s.mng.changeComp cnt then do
      let r ← updateOneComp P E s cnt
      match r.1 with
      | .ng => .ok r
      | .ok => updateCompInfo E rest r.2
    else updateCompInfo E rest s

/-- `flush_cmd`. -/
def flushCmd (E : Env) (s : State) : Except Fault (Ret × State) :=
  match updatePortInfo P E.pmd s.mng with
  | (.ng, m) => .ok (.ng, { s with mng := m })
  | (.ok, m) => do
    let m ← updateLcoreInfo P m
    let r ← updateCompInfo P E (List.range P.maxLcore) { s with mng := m }
    .ok (r.1, { r.2 with mng := backupMngInfo r.2.mng })

/-! ## `exec_one_cmd` -/

/-- Flush after a change that succeeded. -/
def thenFlush (E : Env) (r : Ret × State) : Except Fault (Ret × State) :=
  match r.1 with
  | .ok => flushCmd P E r.2
  | .ng => .ok r

/-- The first step of a command, before the flush. -/
def changeMng (s : State) : CmdAttrs → Except Fault (Ret × State)
  | .clsMac a | .clsVlan a => do
    let r ← updateClsTable P s.mng a
    .ok (r.1, { s with mng := r.2 })
  | .worker c => updateComp P s c
  | .port p => do
    let r ← updatePort P s.mng p
    .ok (r.1, { s with mng := r.2 })
  | _ => .ok (.ok, s)

/-- The commands that `exec_one_cmd` does something for; the case of
`classifier_table` is missing in `spp_mirror`. -/
def handled (module : Module) : CmdAttrs → Bool
  | .clsMac _ | .clsVlan _ => module = .vf
  | .worker _ | .port _ => true
  | _ => false

/-- `exec_one_cmd`. -/
def execOneCmd (E : Env) (s : State) (cmd : CmdAttrs) : Except Fault (Ret × State) :=
  if handled P.module cmd then do
    let r ← changeMng P s cmd
    thenFlush P E r
  else .ok (.ok, s)

/-! ## Runs -/

/-- The status that `main` has given an lcore when the first request arrives. -/
def startStatus (l : ℕ) : LcoreStatus :=
  if P.slave l then .running else if l = P.master then .idling else .unused

/-- The state in which the first request arrives: `main` has initialised
everything, launched the workers and set the statuses. -/
def startUp : State where
  mng := { initMngData P with core := fun l => { initCoreInfo P l with status := startStatus P l } }
  cls := fun _ => .zero
  path := fun _ => .init
  cap := .init

/-- A request and what the environment does while it is executed. -/
structure Request where
  str : CString
  env : Env

/-- A request as `exec_cmds` handles it: parsed and, if it is accepted, executed.
A request that runs into a fault has no next state. -/
def handleRequest (s : State) (e : Request) : Option State :=
  match parseWkCmd P s.mng e.str with
  | .error _ => none
  | .ok (.error _) => some s
  | .ok (.ok cmd) =>
    match execOneCmd P e.env s cmd with
    | .error _ => none
    | .ok r => some r.2

/-- A worker process under any sequence of requests. -/
def workerSystem : Transition.System State Request :=
  Transition.ofStep (startUp P) (handleRequest P)

/-- A request during which every call to the environment succeeds. -/
def Request.plain (str : String) : Request where
  str := str.toList
  env := ⟨⟨fun n => n + 8, fun n => n + 16⟩, ⟨fun _ => true, fun _ => true⟩, true⟩

/-- Requests that are handled one after the other are a run. -/
theorem exists_run_of_requests (reqs : List Request) (Q : State → Prop) [DecidablePred Q]
    (h : (reqs.foldlM (handleRequest P) (startUp P)).any (fun s => Q s) = true) :
    ∃ h s, Transition.Run (workerSystem P) h s ∧ h.map Prod.snd = reqs.reverse ∧ Q s :=
  Transition.exists_run_of_any _ _ _ _ h

end SoftPatchPanel.Worker
