import SoftPatchPanel.Worker.CmdTokens
import SoftPatchPanel.Worker.CompPorts

/-!
# The command language of a worker

`Documented` is the language that the workers are documented to understand, written
down apart from the parser: for every form of request the number and the order of its
tokens, and for every field of the command the token whose value it is.  A placeholder
of the documentation stands for something that makes sense in the state in which the
request arrives: the name of a component that exists or, for a start, does not exist
yet; a port that is there; a classifier entry that can be added or deleted.

The parser understands all of it: `parseTokens_of_documented` says that it makes of a
documented request the command that the request stands for.  What else it accepts is
the subject of `Worker.CmdMishandled`.
-/

namespace SoftPatchPanel.Worker

open Transition

variable {P : Platform} {m : MngData} {args tail toks : List CString} {p : CmdPort} {idx : PortIdx}
  {uid dir tok mac : CString} {d : PortDir} {attrs : PortAttrs} {a : ClsCmdAttrs} {cmd : CmdAttrs}

/-! ## The words of the language -/

/-- The actions of `component`. -/
def compActions : List (CString × Action) := [("start", .start), ("stop", .stop)]

/-- The actions of `port` and `classifier_table`. -/
def portActions : List (CString × Action) := [("add", .add), ("del", .del)]

/-- The directions of a port. -/
def portDirs : List (CString × PortDir) := [("rx", .rx), ("tx", .tx)]

/-- The types of a classifier entry. -/
def clsTypes : List (CString × ClsType) := [("mac", .mac), ("vlan", .vlan)]

/-- The operations on VLAN tags. -/
def tagOps : List (CString × PortOps) :=
  [("add_vlantag", .addVlan), ("del_vlantag", .delVlan)]

/-! ## The documented language -/

/-- `component start NAME CORE TYPE` and `component stop NAME`. -/
def DocumentedComp (P : Platform) (m : MngData) (args : List CString) (c : CmdComp) : Prop :=
  c.name.length < sppwkNameBufsz ∧
    ((∃ core type, args = ["start".toList, c.name, core, type] ∧ c.wkAction = .start ∧
        sppwkGetLcoreId P m c.name = none ∧
        CString.value 0 core = some ((c.core : ℤ), []) ∧ c.core < P.maxLcore ∧
        getCompTypeFromStr P.module type = c.wkType ∧ c.wkType ≠ .none) ∨
      (args = ["stop".toList, c.name] ∧ c.wkAction = .stop ∧ c.core = 0 ∧ c.wkType = .none))

/-- What may follow the component in a `port` request, and the attribute it stands
for: nothing, `del_vlantag`, or `add_vlantag VID PCP`. -/
def DocumentedTag (dir : PortDir) (attrs : PortAttrs) : List CString → Prop
  | [] => attrs = .zero
  | [ops] => ops = "del_vlantag" ∧ attrs = { PortAttrs.zero with ops := .delVlan, dir := dir }
  | [ops, vid, pcp] => ops = "add_vlantag" ∧ ∃ v k : ℤ,
      attrs = ⟨.addVlan, dir, ⟨v, k, 0⟩⟩ ∧
      CString.value 0 vid = some (v, []) ∧ (0 ≤ v ∧ v ≤ ethVlanIdMax) ∧
      CString.value 0 pcp = some (k, []) ∧ 0 ≤ k ∧ k ≤ sppVlanPcpMax
  | _ => False

/-- A component lists the port in the direction. -/
def InUse (P : Platform) (m : MngData) (idx : PortIdx) (dir : PortDir) : Prop :=
  ∃ id, sppwkCheckUsedPort P m idx.ifaceType idx.ifaceNo idx.queueNo dir = .ok (some id)

/-- A physical port has the queue in the direction. -/
def PortIdx.FitsDir (P : Platform) (idx : PortIdx) (dir : PortDir) : Prop :=
  idx.ifaceType = .phy → idx.queueNo ≤ maxPortQueue P idx dir

/-- `port add|del UID rx|tx NAME`, the first with an optional tag.  A port that is in
use can only be given a tag to add. -/
def DocumentedPort (P : Platform) (m : MngData) (args : List CString) (p : CmdPort) : Prop :=
  ∃ act uid dir tail, args = act :: uid :: dir :: p.name :: tail ∧
    (act, p.wkAction) ∈ portActions ∧ NamesPort P uid p.port ∧ (dir, p.dir) ∈ portDirs ∧
    (p.wkAction = .add → p.port.FitsDir P p.dir ∧ (tail.length ≠ 3 → ¬ InUse P m p.port p.dir)) ∧
    (sppwkGetLcoreId P m p.name).isSome ∧ p.name.length < sppwkNameBufsz ∧
    DocumentedTag p.dir p.portAttrs tail ∧ (p.wkAction = .del → tail = [])

/-- The action and the port of a `classifier_table` request, which can be carried out. -/
def DocumentedEntry (P : Platform) (m : MngData) (act uid : CString) (a : ClsCmdAttrs) : Prop :=
  (act, a.wkAction) ∈ portActions ∧ NamesPort P uid a.port ∧
    ∃ r, getSppwkPort P a.port.ifaceType a.port.ifaceNo a.port.queueNo = .ok (some r) ∧
      isAddedPort m r = true ∧ checkClsPort m a r = .ok true

/-- `classifier_table add|del mac MAC UID`. -/
def DocumentedClsMac (P : Platform) (m : MngData) (args : List CString) (a : ClsCmdAttrs) : Prop :=
  ∃ act mac uid, args = [act, "mac".toList, mac, uid] ∧ a.clsType = .mac ∧
    a.vid = ethVlanIdMax ∧ MacOf mac a.mac ∧ DocumentedEntry P m act uid a

/-- `classifier_table add|del vlan VID MAC UID`. -/
def DocumentedClsVlan (P : Platform) (m : MngData) (args : List CString) (a : ClsCmdAttrs) : Prop :=
  ∃ act vid mac uid, args = [act, "vlan".toList, vid, mac, uid] ∧ a.clsType = .vlan ∧
    CString.value 0 vid = some (a.vid, []) ∧ (0 ≤ a.vid ∧ a.vid ≤ ethVlanIdMax) ∧
    MacOf mac a.mac ∧ DocumentedEntry P m act uid a

/-- **The documented language**: the tokens are a form of request, and every field of
the command is the value of its own token. -/
def Documented (P : Platform) (m : MngData) (toks : List CString) : CmdAttrs → Prop
  | .clientId => toks = ["_get_client_id".toList]
  | .status => toks = ["status".toList]
  | .exit => toks = ["exit".toList]
  | .worker c => ∃ args, toks = "component".toList :: args ∧ DocumentedComp P m args c
  | .port p => ∃ args, toks = "port".toList :: args ∧ DocumentedPort P m args p
  | .clsMac a => ∃ args, toks = "classifier_table".toList :: args ∧ DocumentedClsMac P m args a
  | .clsVlan a => ∃ args, toks = "classifier_table".toList :: args ∧ DocumentedClsVlan P m args a

/-- **The parser does what the documentation says**: it stays within its buffers, and
accepts a request, as a command, exactly if the documentation has the request for that
command. -/
def Faithful (P : Platform) (m : MngData) (req : CString) : Prop :=
  ∃ r, parseWkCmd P m req = .ok r ∧
    ∀ cmd, r = .ok cmd ↔ Documented P m (CString.tokens ' ' req) cmd

/-! ## The row of a request -/

/-- No two rows fit the same request. -/
theorem row_eq_of_overlap : ∀ row ∈ cmdAttrList, ∀ row' ∈ cmdAttrList,
    row.cmdName = row'.cmdName → row.nofParamsMin ≤ row'.nofParamsMax →
    row'.nofParamsMin ≤ row.nofParamsMax → row = row' := by
  decide

theorem selectRow_of_mem {row : CmdParseAttrs} (hmem : row ∈ cmdAttrList) {argc : ℕ}
    (hmin : row.nofParamsMin ≤ argc) (hmax : argc ≤ row.nofParamsMax) :
    selectRow row.cmdName argc = some row := by
  cases hsel : selectRow row.cmdName argc with
  | none =>
    rw [selectRow, List.find?_eq_none] at hsel
    have hnot := hsel row hmem
    rw [decide_eq_true_eq] at hnot
    exact absurd ⟨rfl, hmin, hmax⟩ hnot
  | some row' =>
    have hmem' := List.mem_of_find?_eq_some hsel
    have hfits := List.find?_some hsel
    rw [decide_eq_true_eq] at hfits
    obtain ⟨hname, hmin', hmax'⟩ := hfits
    rw [row_eq_of_overlap row' hmem' row hmem hname (by omega) (by omega)]

/-- A request whose number of tokens fits the row of its command. -/
theorem parseTokens_of_mem (row : CmdParseAttrs) (hmem : row ∈ cmdAttrList)
    (hmin : row.nofParamsMin ≤ args.length + 1) (hmax : args.length + 1 ≤ row.nofParamsMax) :
    parseTokens P m (row.cmdName :: args) = parseCmd P m row args := by
  rw [parseTokens, selectRow_of_mem hmem hmin hmax]

/-- A request whose number of tokens does not fit any row of its command. -/
theorem parseTokens_of_count {cmd : CString} (hname : cmdAttrList.any (·.cmdName = cmd) = true)
    (hcount : ∀ row ∈ cmdAttrList, row.cmdName = cmd → row.nofParamsMin ≤ args.length + 1 →
      row.nofParamsMax < args.length + 1) :
    parseTokens P m (cmd :: args) = .ok (.error ⟨.wrongFormat, [], []⟩) := by
  have hsel : selectRow cmd (args.length + 1) = none := by
    rw [selectRow, List.find?_eq_none]
    intro row hrow hfits
    rw [decide_eq_true_eq] at hfits
    have := hcount row hrow hfits.1 hfits.2.1
    omega
  rw [parseTokens, hsel]
  exact if_pos hname

/-! ## What the functions do with one token -/

theorem parseCompAction_eq (c : CmdComp) (arg : CString) :
    parseCompAction c arg =
      .ok ((getListIdx arg compActions).map fun a => { c with wkAction := a }) := by
  have hwords : compActions = cmdActList.filter fun w => w.2 = .start ∨ w.2 = .stop := by decide
  rw [hwords, getListIdx_filter (fun a => decide (a = .start ∨ a = .stop)) cmdActList_nodup,
    parseCompAction]
  cases getListIdx arg cmdActList with
  | none => rfl
  | some a => cases a <;> rfl

theorem getListIdx_portActions (arg : CString) : getListIdx arg portActions =
    (getListIdx arg cmdActList).filter fun a => a = .add ∨ a = .del := by
  have hwords : portActions = cmdActList.filter fun w => w.2 = .add ∨ w.2 = .del := by decide
  rw [hwords, getListIdx_filter (fun a => decide (a = .add ∨ a = .del)) cmdActList_nodup]

theorem parsePortAction_eq (p : CmdPort) (arg : CString) :
    parsePortAction p arg =
      .ok ((getListIdx arg portActions).map fun a => { p with wkAction := a }) := by
  rw [getListIdx_portActions, parsePortAction]
  cases getListIdx arg cmdActList with
  | none => rfl
  | some a => cases a <;> rfl

theorem parseClsAction_eq (a : ClsCmdAttrs) (arg : CString) :
    parseClsAction a arg =
      .ok ((getListIdx arg portActions).map fun act => { a with wkAction := act }) := by
  rw [getListIdx_portActions, parseClsAction]
  cases getListIdx arg cmdActList with
  | none => rfl
  | some a => cases a <;> rfl

theorem parseClsType_eq (a : ClsCmdAttrs) (arg : CString) :
    parseClsType a arg = .ok ((getListIdx arg clsTypes).map fun t => { a with clsType := t }) := by
  have hwords : clsTypes = clsTypeList.filter fun w => w.2 ≠ .none := by decide
  rw [hwords, getListIdx_filter (fun t => decide (t ≠ .none)) clsTypeList_nodup, parseClsType]
  cases getListIdx arg clsTypeList with
  | none => rfl
  | some t => cases t <;> rfl

theorem getListIdx_portDirs (arg : CString) : getListIdx arg portDirs =
    (getListIdx arg portDirList).filter fun d => d ≠ .none := by
  have hwords : portDirs = portDirList.filter fun w => w.2 ≠ .none := by decide
  rw [hwords, getListIdx_filter (fun d => decide (d ≠ .none)) portDirList_nodup]

theorem parsePortVlanOps_eq (hzero : p.portAttrs = .zero) (arg : CString) :
    parsePortVlanOps p arg = .ok ((getListIdx arg tagOps).map fun ops =>
      { p with portAttrs := { PortAttrs.zero with ops := ops, dir := p.dir } }) := by
  have hwords : tagOps = portAbilityList.filter fun w => w.2 ≠ .none := by decide
  rw [hwords, getListIdx_filter (fun ops => decide (ops ≠ .none)) portAbilityList_nodup,
    parsePortVlanOps, hzero]
  cases getListIdx arg portAbilityList with
  | none => rfl
  | some ops => cases ops <;> rfl

theorem copyName_of_length_lt {name : CString} (h : name.length < sppwkNameBufsz) :
    copyName name = .ok (some name) := by
  have hval : sppwkValBufsz = 111 := rfl
  have hname : sppwkNameBufsz = 32 := rfl
  rw [copyName, if_neg (by omega), if_neg (by omega)]

/-! ## The tests on ports -/

/-- Whether a port that is in the table is in use can be told. -/
theorem exists_sppwkCheckUsedPort (hnamed : idx.ifaceType.Named)
    (hin : idx.InIfaceTable P) (dir : PortDir) :
    ∃ o, sppwkCheckUsedPort P m idx.ifaceType idx.ifaceNo idx.queueNo dir = .ok o ∧
      (o.isSome ↔ InUse P m idx dir) := by
  obtain ⟨r, hr⟩ := getSppwkPort_of_inIfaceTable hnamed hin
  have hcheck : sppwkCheckUsedPort P m idx.ifaceType idx.ifaceNo idx.queueNo dir =
      .ok (usedBy P m r dir) := by
    rw [sppwkCheckUsedPort, hr]
    rfl
  refine ⟨_, hcheck, ?_⟩
  rw [InUse, hcheck, Option.isSome_iff_exists]
  simp only [Except.ok.injEq]

/-- The tests on a port that are made unless the request has the maximal length: it has
to be in the table, and may not be in use in both directions. -/
theorem parsePort_of_uid (flag : Bool) (p : CmdPort) (huid : uidOutcome P uid = .ok (some idx)) :
    ((p.wkAction = .add ∧ flag = false ∧ ¬ idx.InIfaceTable P) →
      parsePort P m flag p uid = .error .undefined) ∧
    ((p.wkAction = .add ∧ flag = false ∧ idx.InIfaceTable P ∧
        InUse P m idx .rx ∧ InUse P m idx .tx) → parsePort P m flag p uid = .ok none) ∧
    ((p.wkAction = .add → flag = false →
        idx.InIfaceTable P ∧ ¬ (InUse P m idx .rx ∧ InUse P m idx .tx)) →
      parsePort P m flag p uid = .ok (some { p with port := idx })) := by
  have hnamed := uidOutcome_named huid
  unfold parsePort
  rw [parseResourceUid_eq, huid]
  simp only [bind, Except.bind]
  refine ⟨?_, ?_, ?_⟩
  · rintro ⟨hadd, rfl, hout⟩
    rw [if_pos ⟨rfl, hadd⟩, sppwkCheckUsedPort, getSppwkPort_of_not_inIfaceTable hnamed hout]
    rfl
  · rintro ⟨hadd, rfl, hin, hrx, htx⟩
    obtain ⟨rx, hrx', hrxuse⟩ := exists_sppwkCheckUsedPort (m := m) hnamed hin .rx
    obtain ⟨tx, htx', htxuse⟩ := exists_sppwkCheckUsedPort (m := m) hnamed hin .tx
    rw [if_pos ⟨rfl, hadd⟩, hrx', htx']
    have hboth : rx.isSome = true ∧ tx.isSome = true := ⟨hrxuse.mpr hrx, htxuse.mpr htx⟩
    exact if_pos hboth
  intro hok
  by_cases htested : (!flag) = true ∧ p.wkAction = .add
  · obtain ⟨hin, hfree⟩ := hok htested.2 (by simpa using htested.1)
    obtain ⟨rx, hrx', hrxuse⟩ := exists_sppwkCheckUsedPort (m := m) hnamed hin .rx
    obtain ⟨tx, htx', htxuse⟩ := exists_sppwkCheckUsedPort (m := m) hnamed hin .tx
    rw [if_pos htested, hrx', htx']
    have hnot : ¬ (rx.isSome = true ∧ tx.isSome = true) :=
      fun h => hfree ⟨hrxuse.mp h.1, htxuse.mp h.2⟩
    exact if_neg hnot
  · exact if_neg htested

theorem mem_portDirs (h : getListIdx dir portDirs = some d) :
    (dir = "rx" ∧ d = .rx) ∨ (dir = "tx" ∧ d = .tx) := by
  simpa [portDirs] using mem_of_getListIdx h

/-- The tests on the direction: a physical port has to have the queue in it, and may not
be in use unless the request has the maximal length. -/
theorem parsePortDirection_of_word (flag : Bool) (p : CmdPort) (hnamed : p.port.ifaceType.Named)
    (hin : p.wkAction = .add → flag = false → p.port.InIfaceTable P)
    (hd : getListIdx dir portDirs = some d) :
    ((p.wkAction = .add → p.port.FitsDir P d ∧ (flag = false → ¬ InUse P m p.port d)) →
      parsePortDirection P m flag p dir = .ok (some { p with dir := d })) ∧
    (¬ (p.wkAction = .add → p.port.FitsDir P d ∧ (flag = false → ¬ InUse P m p.port d)) →
      parsePortDirection P m flag p dir = .ok none) := by
  rw [getListIdx_portDirs, Option.filter_eq_some_iff] at hd
  obtain ⟨hlist, hne⟩ := hd
  rw [decide_eq_true_eq] at hne
  unfold parsePortDirection
  rw [hlist]
  split
  · rename_i heq
    cases heq
  · rename_i heq
    exact absurd (Option.some.inj heq) hne
  rename_i d' _ heq
  cases heq
  split
  · rename_i hqueue
    have hnot : ¬ (p.wkAction = .add →
        p.port.FitsDir P d ∧ (flag = false → ¬ InUse P m p.port d)) := by
      intro h
      have hfits := (h hqueue.1.1).1 hqueue.1.2
      have hlt := hqueue.2
      omega
    exact ⟨fun h => absurd h hnot, fun _ => rfl⟩
  rename_i hqueue
  have hfits : p.wkAction = .add → p.port.FitsDir P d := by
    intro hadd hphy
    by_contra hlt
    exact hqueue ⟨⟨hadd, hphy⟩, by omega⟩
  split
  · rename_i htested
    obtain ⟨hflag, hadd⟩ : flag = false ∧ p.wkAction = .add := by simpa using htested
    obtain ⟨used, hused, huse⟩ :=
      exists_sppwkCheckUsedPort (m := m) hnamed (hin hadd hflag) d
    rw [hused]
    refine ⟨fun h => ?_, fun h => ?_⟩
    · have hfree : ¬ used.isSome = true := fun hsome => (h hadd).2 hflag (huse.mp hsome)
      exact if_neg hfree
    have hsome : used.isSome = true := by
      by_contra hfree
      exact h fun _ => ⟨hfits hadd, fun _ hin => hfree (huse.mpr hin)⟩
    exact if_pos hsome
  · rename_i hnot
    refine ⟨fun _ => rfl, fun h => absurd (fun hadd => ?_) h⟩
    exact ⟨hfits hadd, fun hflag => absurd ⟨by simp [hflag], hadd⟩ hnot⟩

theorem parsePortDirection_of_no_word (flag : Bool) (p : CmdPort)
    (hd : getListIdx dir portDirs = none) : parsePortDirection P m flag p dir = .ok none := by
  rw [getListIdx_portDirs, Option.filter_eq_none_iff] at hd
  unfold parsePortDirection
  split
  · rfl
  · rfl
  · rename_i d hne hlist
    exact absurd (hd d hlist) (by simpa using fun h => hne (by rw [h]))

/-- An attribute without numbers. -/
def tagAttrs (ops : PortOps) (dir : PortDir) : PortAttrs :=
  { PortAttrs.zero with ops := ops, dir := dir }

/-- The rows of the numbers of a tag. -/
def tagNumberOps : List (CmdOps CmdPort) :=
  [("port vid", parsePortVid), ("port pcp", parsePortPcp)]

/-! ## The documented language is understood -/

theorem parseParams_cons_of_ok {α : Type} {param : CString}
    {f : α → CString → Except Fault (Option α)} {ops : List (CmdOps α)} {arg : CString}
    {acc acc' : α} (h : f acc arg = .ok (some acc')) :
    parseParams ((param, f) :: ops) (arg :: args) acc = parseParams ops args acc' := by
  rw [parseParams]
  simp only [h]
  rfl

theorem parseParams_comp_of_documented (hP : P.FitsInt) {c : CmdComp}
    (h : DocumentedComp P m args c) : parseParams (compOps P m) args .zero = .ok (.ok c) := by
  obtain ⟨act, name, l, t⟩ := c
  obtain ⟨hlen, ⟨core, type, rfl, hact, hnew, hval, hlt, htype, hne⟩ | ⟨rfl, hact, hcore, htype⟩⟩ := h
  · obtain rfl : act = .start := hact
    obtain rfl : _ = t := htype
    have hlcore := hP.lcore
    have hlt : l < P.maxLcore := hlt
    have hnew : sppwkGetLcoreId P m name = none := hnew
    have h₁ : parseCompAction .zero "start" = .ok (some ⟨.start, [], 0, .none⟩) := rfl
    have h₂ : parseCompName P m ⟨.start, [], 0, .none⟩ name =
        .ok (some ⟨.start, name, 0, .none⟩) := by
      rw [parseCompName, if_neg (by simp [hnew]), copyName_of_length_lt hlen]
      rfl
    have h₃ : parseCompLcoreId P ⟨.start, name, 0, .none⟩ core =
        .ok (some ⟨.start, name, l, .none⟩) := by
      rw [parseCompLcoreId, if_neg (by simp), getUintInRange_of_value hval (by omega) (by omega)]
      rfl
    have h₄ : parseCompType P ⟨.start, name, l, .none⟩ type =
        .ok (some ⟨.start, name, l, getCompTypeFromStr P.module type⟩) := by
      rw [parseCompType, if_neg (by simp), if_neg hne]
    rw [compOps, parseParams_cons_of_ok h₁, parseParams_cons_of_ok h₂, parseParams_cons_of_ok h₃,
      parseParams_cons_of_ok h₄]
    rfl
  · obtain rfl : act = .stop := hact
    obtain rfl : l = 0 := hcore
    obtain rfl : t = .none := htype
    have h₁ : parseCompAction .zero "stop" = .ok (some ⟨.stop, [], 0, .none⟩) := rfl
    have h₂ : parseCompName P m ⟨.stop, [], 0, .none⟩ name =
        .ok (some ⟨.stop, name, 0, .none⟩) := by
      rw [parseCompName, if_neg (by simp), copyName_of_length_lt hlen]
      rfl
    rw [compOps, parseParams_cons_of_ok h₁, parseParams_cons_of_ok h₂]
    rfl

theorem parseParams_tag_of_documented (hzero : p.portAttrs = .zero)
    (h : DocumentedTag p.dir attrs tail) :
    parseParams (("port vlan operation", parsePortVlanOps) :: tagNumberOps) tail p =
      .ok (.ok { p with portAttrs := attrs }) := by
  match tail, h with
  | [], h =>
    obtain rfl : attrs = .zero := h
    rw [← hzero]
    rfl
  | [ops], h =>
    obtain ⟨rfl, rfl⟩ := h
    have h₁ : parsePortVlanOps p "del_vlantag" =
        .ok (some { p with portAttrs := tagAttrs .delVlan p.dir }) := parsePortVlanOps_eq hzero _
    rw [parseParams_cons_of_ok h₁]
    rfl
  | [ops, vid, pcp], h =>
    obtain ⟨rfl, v, k, rfl, hv, hvrange, hk, hkrange⟩ := h
    have h₁ : parsePortVlanOps p "add_vlantag" =
        .ok (some { p with portAttrs := tagAttrs .addVlan p.dir }) := parsePortVlanOps_eq hzero _
    have hvid : getIntInRange vid 0 ethVlanIdMax = some v :=
      getIntInRange_of_value hv hvrange.1 hvrange.2 (by decide) (by decide)
    have hpcp : getIntInRange pcp 0 sppVlanPcpMax = some k :=
      getIntInRange_of_value hk hkrange.1 hkrange.2 (by decide) (by decide)
    have h₂ : parsePortVid { p with portAttrs := tagAttrs .addVlan p.dir } vid =
        .ok (some { p with portAttrs := ⟨.addVlan, p.dir, ⟨v, -1, 0⟩⟩ }) := by
      show Except.ok ((getIntInRange vid 0 ethVlanIdMax).map _) = _
      rw [hvid]
      rfl
    have h₃ : parsePortPcp { p with portAttrs := ⟨.addVlan, p.dir, ⟨v, -1, 0⟩⟩ } pcp =
        .ok (some { p with portAttrs := ⟨.addVlan, p.dir, ⟨v, k, 0⟩⟩ }) := by
      show Except.ok ((getIntInRange pcp 0 sppVlanPcpMax).map _) = _
      rw [hpcp]
      rfl
    rw [parseParams_cons_of_ok h₁, tagNumberOps, parseParams_cons_of_ok h₂,
      parseParams_cons_of_ok h₃]
    rfl

theorem portActions_nodup : (portActions.map Prod.fst).Nodup := by decide

theorem parseClsAction_of_word (a : ClsCmdAttrs) {word : CString} {act : Action}
    (h : (word, act) ∈ portActions) : parseClsAction a word = .ok (some { a with wkAction := act }) := by
  rw [parseClsAction_eq, (getListIdx_eq_some_iff portActions_nodup).mpr h]
  rfl

theorem portDirs_nodup : (portDirs.map Prod.fst).Nodup := by decide

theorem parseParams_port_of_documented (hP : P.FitsInt) (h : DocumentedPort P m args p) :
    parseParams (portOps P m (args.length + 1 = 8)) args .zero = .ok (.ok p) := by
  obtain ⟨action, idx, d, name, attrs⟩ := p
  obtain ⟨act, uid, dir, tail, rfl, haction, hport, hdir, hadd, hname, hlen, htag, -⟩ := h
  have hflag : decide ((act :: uid :: dir :: name :: tail).length + 1 = 8) = false →
      tail.length ≠ 3 := by
    simp only [List.length_cons, decide_eq_false_iff_not]
    omega
  generalize decide ((act :: uid :: dir :: name :: tail).length + 1 = 8) = flag at hflag ⊢
  have huid : uidOutcome P uid = .ok (some idx) := hport.uidOutcome hP
  have hin : idx.InIfaceTable P := by
    obtain ⟨-, -, hin, -⟩ := hport
    exact hin.inIfaceTable
  have haction := (getListIdx_eq_some_iff portActions_nodup).mpr haction
  have hdir : getListIdx dir portDirs = some d := (getListIdx_eq_some_iff portDirs_nodup).mpr hdir
  have h₁ : parsePortAction .zero act = .ok (some { CmdPort.zero with wkAction := action }) := by
    rw [parsePortAction_eq, haction]
    rfl
  have h₂ : parsePort P m flag { CmdPort.zero with wkAction := action } uid =
      .ok (some { CmdPort.zero with wkAction := action, port := idx }) := by
    refine (parsePort_of_uid flag _ huid).2.2 fun hact hf => ⟨hin, fun hboth => ?_⟩
    have hfree := (hadd hact).2 (hflag hf)
    rcases mem_portDirs hdir with ⟨-, rfl⟩ | ⟨-, rfl⟩
    · exact hfree hboth.1
    · exact hfree hboth.2
  have h₃ : parsePortDirection P m flag { CmdPort.zero with wkAction := action, port := idx } dir =
      .ok (some { CmdPort.zero with wkAction := action, port := idx, dir := d }) := by
    refine (parsePortDirection_of_word flag _ (uidOutcome_named huid) (fun _ _ => hin) hdir).1
      fun hact => ?_
    exact ⟨(hadd hact).1, fun hf => (hadd hact).2 (hflag hf)⟩
  have h₄ : parseCompNamePortcmd P m
      { CmdPort.zero with wkAction := action, port := idx, dir := d } name =
      .ok (some { CmdPort.zero with wkAction := action, port := idx, dir := d, name := name }) := by
    have hname : (sppwkGetLcoreId P m name).isSome := hname
    rw [parseCompNamePortcmd, if_neg (by simp [Option.isSome_iff_ne_none.mp hname]),
      copyName_of_length_lt hlen]
    rfl
  rw [portOps, parseParams_cons_of_ok h₁, parseParams_cons_of_ok h₂, parseParams_cons_of_ok h₃,
    parseParams_cons_of_ok h₄]
  exact parseParams_tag_of_documented rfl htag

theorem MacOf.convert (h : MacOf tok mac) :
    ∃ v, sppwkConvertMacStrToInt64 mac = .ok v ∧ v.msb = false := by
  rcases h with ⟨-, rfl⟩ | ⟨hmac, rfl⟩
  · exact ⟨clsDummyAddr, by decide, by decide⟩
  · exact hmac.convert

theorem MacOf.parseMacAddr (h : MacOf tok mac) (a : ClsCmdAttrs) :
    Worker.parseMacAddr a tok = .ok (some { a with mac := mac }) := by
  obtain ⟨v, hconv, hmsb⟩ := h.convert
  have htext : (if tok = "default" then clsDummyAddrStr else tok) = mac := by
    rcases h with ⟨rfl, rfl⟩ | ⟨hmac, rfl⟩
    · rfl
    refine if_neg fun heq => ?_
    have hlen := hmac.1
    rw [heq] at hlen
    exact absurd hlen (by decide)
  unfold Worker.parseMacAddr
  simp only [htext, hconv, bind, Except.bind, hmsb]
  rfl

theorem parseClsPort_of_documented (hP : P.FitsInt) {act : CString}
    (h : DocumentedEntry P m act uid a) {a₀ : ClsCmdAttrs}
    (ha : (if a₀.clsType = .mac then { a₀ with vid := ethVlanIdMax } else a₀) =
      { a with port := a₀.port }) :
    parseClsPort P m a₀ uid = .ok (some a) := by
  obtain ⟨-, hport, r, hr, hadd, hcheck⟩ := h
  have hcheck' : checkClsPort m { a with port := a₀.port } r = .ok true := hcheck
  unfold parseClsPort
  rw [parseResourceUid_eq, hport.uidOutcome hP]
  simp only [bind, Except.bind, hr, hadd, ha, hcheck']
  rfl

theorem parseParams_clsMac_of_documented (hP : P.FitsInt)
    (h : DocumentedClsMac P m args a) : parseParams (clsMacOps P m) args .zero = .ok (.ok a) := by
  obtain ⟨action, t, v, str, idx⟩ := a
  obtain ⟨act, mac, uid, rfl, htype, hvid, hmac, hentry⟩ := h
  obtain rfl : t = .mac := htype
  obtain rfl : v = ethVlanIdMax := hvid
  have h₁ := parseClsAction_of_word .zero hentry.1
  have h₂ : parseClsType { ClsCmdAttrs.zero with wkAction := action } "mac" =
      .ok (some { ClsCmdAttrs.zero with wkAction := action, clsType := .mac }) := rfl
  rw [clsMacOps, parseParams_cons_of_ok h₁, parseParams_cons_of_ok h₂,
    parseParams_cons_of_ok (hmac.parseMacAddr _),
    parseParams_cons_of_ok (parseClsPort_of_documented hP hentry rfl)]
  rfl

theorem parseParams_clsVlan_of_documented (hP : P.FitsInt)
    (h : DocumentedClsVlan P m args a) : parseParams (clsVlanOps P m) args .zero = .ok (.ok a) := by
  obtain ⟨action, t, v, str, idx⟩ := a
  obtain ⟨act, vid, mac, uid, rfl, htype, hval, hrange, hmac, hentry⟩ := h
  obtain rfl : t = .vlan := htype
  have hread : getIntInRange vid 0 ethVlanIdMax = some v :=
    getIntInRange_of_value hval hrange.1 hrange.2 (by decide) (by decide)
  have h₁ := parseClsAction_of_word .zero hentry.1
  have h₂ : parseClsType { ClsCmdAttrs.zero with wkAction := action } "vlan" =
      .ok (some { ClsCmdAttrs.zero with wkAction := action, clsType := .vlan }) := rfl
  have h₃ : parseClsVid { ClsCmdAttrs.zero with wkAction := action, clsType := .vlan } vid =
      .ok (some { ClsCmdAttrs.zero with wkAction := action, clsType := .vlan, vid := v }) := by
    rw [parseClsVid, hread]
    rfl
  rw [clsVlanOps, parseParams_cons_of_ok h₁, parseParams_cons_of_ok h₂, parseParams_cons_of_ok h₃,
    parseParams_cons_of_ok (hmac.parseMacAddr _),
    parseParams_cons_of_ok (parseClsPort_of_documented hP hentry rfl)]
  rfl

/-- The rows of the commands. -/
theorem parseTokens_component (hmin : 2 ≤ args.length) (hmax : args.length ≤ 4) :
    parseTokens P m ("component" :: args) =
      (parseParams (compOps P m) args .zero >>= fun r => .ok (r.map .worker)) :=
  parseTokens_of_mem ⟨"component", 3, 5, .worker⟩ (by decide) (Nat.succ_le_succ hmin)
    (Nat.succ_le_succ hmax)

@[inherit_doc parseTokens_component]
theorem parseTokens_port (hmin : 4 ≤ args.length) (hmax : args.length ≤ 7) :
    parseTokens P m ("port" :: args) =
      (parseParams (portOps P m (args.length + 1 = 8)) args .zero >>= fun r =>
        .ok (r.map .port)) :=
  parseTokens_of_mem ⟨"port", 5, 8, .port⟩ (by decide) (Nat.succ_le_succ hmin)
    (Nat.succ_le_succ hmax)

@[inherit_doc parseTokens_component]
theorem parseTokens_clsMac (act type mac uid : CString) :
    parseTokens P m ["classifier_table", act, type, mac, uid] =
      (parseParams (clsMacOps P m) [act, type, mac, uid] .zero >>= fun r => .ok (r.map .clsMac)) :=
  parseTokens_of_mem ⟨"classifier_table", 5, 5, .clsMac⟩ (by decide) (le_refl 5) (le_refl 5)

@[inherit_doc parseTokens_component]
theorem parseTokens_clsVlan (act type vid mac uid : CString) :
    parseTokens P m ["classifier_table", act, type, vid, mac, uid] =
      (parseParams (clsVlanOps P m) [act, type, vid, mac, uid] .zero >>= fun r =>
        .ok (r.map .clsVlan)) :=
  parseTokens_of_mem ⟨"classifier_table", 6, 6, .clsVlan⟩ (by decide) (le_refl 6) (le_refl 6)

theorem DocumentedTag.length_le {dir : PortDir}
    (h : DocumentedTag dir attrs tail) : tail.length ≤ 3 := by
  match tail, h with
  | [], _ | [_], _ => simp
  | [_, _, _], _ => simp

/-- **The parser understands the documented language.** -/
theorem parseTokens_of_documented (hP : P.FitsInt)
    (h : Documented P m toks cmd) : parseTokens P m toks = .ok (.ok cmd) := by
  cases cmd with
  | clientId | status | exit =>
    obtain rfl : toks = _ := h
    rfl
  | worker c =>
    obtain ⟨args, rfl, hdoc⟩ := h
    have hpar := parseParams_comp_of_documented hP hdoc
    obtain ⟨-, ⟨core, type, rfl, -⟩ | ⟨rfl, -⟩⟩ := hdoc
    all_goals
      rw [parseTokens_component (by simp) (by simp), hpar]
      rfl
  | port p =>
    obtain ⟨args, rfl, hdoc⟩ := h
    have hpar := parseParams_port_of_documented hP hdoc
    obtain ⟨act, uid, dir, tail, rfl, -, -, -, -, -, -, htag, -⟩ := hdoc
    have hlen := htag.length_le
    rw [parseTokens_port (by simp) (by simp only [List.length_cons]; omega), hpar]
    rfl
  | clsMac a =>
    obtain ⟨args, rfl, hdoc⟩ := h
    have hpar := parseParams_clsMac_of_documented hP hdoc
    obtain ⟨act, mac, uid, rfl, -⟩ := hdoc
    rw [parseTokens_clsMac, hpar]
    rfl
  | clsVlan a =>
    obtain ⟨args, rfl, hdoc⟩ := h
    have hpar := parseParams_clsVlan_of_documented hP hdoc
    obtain ⟨act, vid, mac, uid, rfl, -⟩ := hdoc
    rw [parseTokens_clsVlan, hpar]
    rfl

theorem Documented.length_le (h : Documented P m toks cmd) : toks.length ≤ sppwkMaxParams := by
  have hmax : sppwkMaxParams = 8 := rfl
  cases cmd with
  | clientId | status | exit =>
    obtain rfl : toks = _ := h
    simp [hmax]
  | worker c =>
    obtain ⟨args, rfl, -, ⟨core, type, rfl, -⟩ | ⟨rfl, -⟩⟩ := h <;> simp [hmax]
  | port p =>
    obtain ⟨args, rfl, act, uid, dir, tail, rfl, -, -, -, -, -, -, htag, -⟩ := h
    have hlen := htag.length_le
    simp only [List.length_cons]
    omega
  | clsMac a =>
    obtain ⟨args, rfl, act, mac, uid, rfl, -⟩ := h
    simp [hmax]
  | clsVlan a =>
    obtain ⟨args, rfl, act, vid, mac, uid, rfl, -⟩ := h
    simp [hmax]

theorem parseWkCmd_of_documented (hP : P.FitsInt) {req : CString}
    (hlen : req.length < sppwkMaxParams * sppwkValBufsz)
    (h : Documented P m (CString.tokens ' ' req) cmd) : parseWkCmd P m req = .ok (.ok cmd) := by
  rw [parseWkCmd, if_neg (by omega), if_neg (Nat.not_lt.mpr h.length_le)]
  exact parseTokens_of_documented hP h

end SoftPatchPanel.Worker
