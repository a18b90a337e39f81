import SoftPatchPanel.Worker.CmdFaithful

/-!
# Where the parser looks ports up

The parser turns the name of a port into numbers, and with these numbers it calls two
functions that index tables: `get_port_max_queues` reads the number of queues of a
physical port, and `get_sppwk_port` finds the entry of a port in the interface table.
This file writes down which calls are made while a request is parsed, in the order of
the sources, and asks two things: whether the numbers are in range at every call, and
whether the port of a command that is accepted exists.

The calls are recorded for each parameter beside the function that reads it, and
`paramCalls` runs over the parameters exactly as `parseParams` does, up to the token
at which parsing ends.  The tests that should keep the numbers in range are spread over
three functions, and each of them leaves a gap:

* `parse_resource_uid` compares the interface number with `>`, so the number
  `RTE_MAX_ETHPORTS` itself gets through;
* it does not test the queue number at all;
* the test of the queue number in `parse_port_direction` is for additions only, comes
  after the first lookup, and has no lower bound.

`Escapes` says which requests get through the gaps, and
`tablesRespected_iff_not_escapes` that no others do.
-/

namespace SoftPatchPanel.Worker

open Transition

variable {P : Platform} {m : MngData} {args tail : List CString} {uid param arg dir : CString}
  {idx : PortIdx} {flag : Bool} {p : CmdPort} {bad : CmdPort → Prop} {a a' : ClsCmdAttrs} {vid : ℤ}

/-! ## The calls -/

/-- A call that indexes a table. -/
inductive TableCall where
  /-- `get_sppwk_port`. -/
  | port (idx : PortIdx)
  /-- `get_port_max_queues`. -/
  | maxQueues (ifaceNo : ℤ)

/-- The arguments of the call are in range. -/
def TableCall.InRange (P : Platform) : TableCall → Prop
  | .port idx => idx.InTable P
  | .maxQueues ifaceNo => 0 ≤ ifaceNo ∧ ifaceNo < P.maxEthports

/-- The calls that a parameter makes, beside the function that reads it. -/
abbrev CallsOf (α : Type) := α → CString → List TableCall

/-- No calls. -/
def noCalls {α : Type} : CallsOf α := fun _ _ => []

/-- The calls of `parse_resource_uid`. -/
def uidCalls (P : Platform) (uid : CString) : List TableCall :=
  match uidWith readInt uid with
  | none => []
  | some (idx, _) =>
    if idx.ifaceNo > P.maxEthports ∨ idx.ifaceNo < 0 then []
    else if idx.ifaceType = .phy then [.maxQueues idx.ifaceNo]
    else []

/-- The calls of `parse_port`: the second test is made if the first finds the port in
use. -/
def parsePortCalls (P : Platform) (m : MngData) (allowOverride : Bool) : CallsOf CmdPort :=
  fun p uid => uidCalls P uid ++
    match parseResourceUid P uid with
    | .ok (some idx) =>
      if !allowOverride ∧ p.wkAction = .add then
        .port idx ::
          match sppwkCheckUsedPort P m idx.ifaceType idx.ifaceNo idx.queueNo .rx with
          | .ok (some _) => [.port idx]
          | _ => []
      else []
    | _ => []

/-- The calls of `parse_port_direction`. -/
def parsePortDirectionCalls (P : Platform) (allowOverride : Bool) : CallsOf CmdPort :=
  fun p arg =>
    match getListIdx arg portDirList with
    | none | some .none => []
    | some dir =>
      if (p.wkAction = .add ∧ p.port.ifaceType = .phy) ∧ maxPortQueue P p.port dir < p.port.queueNo
      then []
      else if !allowOverride ∧ p.wkAction = .add then [.port p.port]
      else []

/-- The calls of `parse_cls_port`: one in `is_added_port`, one in `is_used_with_addr`. -/
def parseClsPortCalls (P : Platform) (m : MngData) : CallsOf ClsCmdAttrs :=
  fun a uid => uidCalls P uid ++
    match parseResourceUid P uid with
    | .ok (some idx) =>
      .port idx ::
        match getSppwkPort P idx.ifaceType idx.ifaceNo idx.queueNo with
        | .ok (some r) =>
          if !isAddedPort m r then []
          else match a.wkAction with
            | .add => [.port idx]
            | .del =>
              match sppwkConvertMacStrToInt64 a.mac with
              | .ok mac => if mac.msb then [] else [.port idx]
              | .error _ => []
            | _ => []
        | _ => []
    | _ => []

/-- The calls made by the loop over the parameters. -/
def paramCalls {α : Type} : List (CallsOf α) → List (CmdOps α) → List CString → α → List TableCall
  | calls :: rest, op :: ops, arg :: args, acc =>
    calls acc arg ++
      match op.2 acc arg with
      | .ok (some acc') => paramCalls rest ops args acc'
      | _ => []
  | _, _, _, _ => []

/-- The calls made by the function of a row. -/
def rowCalls (P : Platform) (m : MngData) (row : CmdParseAttrs) (args : List CString) :
    List TableCall :=
  match row.type with
  | .clsMac =>
    paramCalls [noCalls, noCalls, noCalls, parseClsPortCalls P m] (clsMacOps P m) args .zero
  | .clsVlan =>
    paramCalls [noCalls, noCalls, noCalls, noCalls, parseClsPortCalls P m] (clsVlanOps P m) args
      .zero
  | .port =>
    let flag := decide (args.length + 1 = row.nofParamsMax)
    paramCalls [noCalls, parsePortCalls P m flag, parsePortDirectionCalls P flag, noCalls, noCalls,
      noCalls, noCalls] (portOps P m flag) args .zero
  | _ => []

/-- **The calls made while a request is parsed.** -/
def tableCalls (P : Platform) (m : MngData) (req : CString) : List TableCall :=
  if sppwkMaxParams * sppwkValBufsz ≤ req.length then []
  else if sppwkMaxParams < (CString.tokens ' ' req).length then []
  else match CString.tokens ' ' req with
    | [] => []
    | cmd :: args =>
      match selectRow cmd (args.length + 1) with
      | some row => rowCalls P m row args
      | none => []

/-- The port that a command names. -/
def CmdAttrs.portIdx : CmdAttrs → Option PortIdx
  | .port p => some p.port
  | .clsMac a | .clsVlan a => some a.port
  | _ => none

/-- **Ports index inside the tables**: the arguments are in range at every call that is
made while the request is parsed, and the port of the command, if the request is
accepted, is in the table and has the queue. -/
def TablesRespected (P : Platform) (m : MngData) (req : CString) : Prop :=
  (∀ c ∈ tableCalls P m req, c.InRange P) ∧
    ∀ cmd, parseWkCmd P m req = .ok (.ok cmd) →
      ∀ idx, cmd.portIdx = some idx → idx.InTable P ∧ idx.HasQueue P

/-! ## The requests that get through -/

/-- The UID has the number just past the end of the queue table. -/
def UidEscapes (P : Platform) (uid : CString) : Prop :=
  ∃ idx multi, uidWith readInt uid = some (idx, multi) ∧ idx.ifaceType = .phy ∧
    idx.ifaceNo = P.maxEthports

/-- What follows the component in a `port` request can be read. -/
def TagReadable : List CString → Prop
  | [] => True
  | ops :: args => ops = "del_vlantag" ∨
    (ops = "add_vlantag" ∧
      (∀ vid ∈ args.head?, (getIntInRange vid 0 ethVlanIdMax).isSome) ∧
      ∀ pcp ∈ args.tail.head?, (getIntInRange pcp 0 sppVlanPcpMax).isSome)

/-- A `port` request: the number of a physical port is past the end; a port that is to be
added is outside the table when it is looked up; or the port is not looked up, and is
accepted although it does not exist. -/
def PortEscapes (P : Platform) (m : MngData) : List CString → Prop
  | act :: uid :: dir :: name :: tail => tail.length ≤ 3 ∧
    ∃ action, (act, action) ∈ portActions ∧ (UidEscapes P uid ∨
      ∃ idx, uidOutcome P uid = .ok (some idx) ∧
        ((action = .add ∧ tail.length ≠ 3 ∧ ¬ idx.InTable P) ∨
          ((action = .del ∨ tail.length = 3) ∧ ¬ (idx.InTable P ∧ idx.HasQueue P) ∧
            (∃ d, (dir, d) ∈ portDirs ∧ (action = .add → idx.FitsDir P d)) ∧
            (sppwkGetLcoreId P m name).isSome ∧ TagReadable tail)))
  | _ => False

/-- The action, the type and the address of a `classifier_table` request are read, and
then its port: the number of a physical port is past the end, the port is outside the
table when it is looked up, or the entry is accepted although the port does not have the
queue. -/
def EntryEscapes (P : Platform) (m : MngData) (act type mac uid : CString) (vid : ℤ) : Prop :=
  ∃ action t v, (act, action) ∈ portActions ∧ (type, t) ∈ clsTypes ∧
    sppwkConvertMacStrToInt64 (macText mac) = .ok v ∧ v.msb = false ∧
    (UidEscapes P uid ∨ ∃ idx, uidOutcome P uid = .ok (some idx) ∧
      (¬ idx.InTable P ∨ (¬ idx.HasQueue P ∧
        ∃ r, getSppwkPort P idx.ifaceType idx.ifaceNo idx.queueNo = .ok (some r) ∧
          isAddedPort m r = true ∧
          checkClsPort m ⟨action, t, if t = .mac then ethVlanIdMax else vid, macText mac, .zero⟩ r =
            .ok true)))

/-- A `classifier_table` request, in its two forms. -/
def ClsEscapes (P : Platform) (m : MngData) : List CString → Prop
  | [act, type, mac, uid] => EntryEscapes P m act type mac uid 0
  | [act, type, vid, mac, uid] =>
    ∃ v, getIntInRange vid 0 ethVlanIdMax = some v ∧ EntryEscapes P m act type mac uid v
  | _ => False

/-- **The requests whose ports get past the tests.** -/
def Escapes (P : Platform) (m : MngData) (req : CString) : Prop :=
  req.length < sppwkMaxParams * sppwkValBufsz ∧
    ∃ cmd args, CString.tokens ' ' req = cmd :: args ∧
      ((cmd = "port" ∧ PortEscapes P m args) ∨
        (cmd = "classifier_table" ∧ ClsEscapes P m args))

/-! ## One parameter after the other -/

/-- A call is out of range, or the result has a property. -/
def Escape {α : Type} (P : Platform) (bad : α → Prop) (calls : List TableCall)
    (r : Except Fault (Except ParseErrMsg α)) : Prop :=
  (∃ c ∈ calls, ¬ c.InRange P) ∨ ∃ a, r = .ok (.ok a) ∧ bad a

/-- The same for the loop over the parameters. -/
def ParamEscape {α : Type} (P : Platform) (bad : α → Prop) (rest : List (CallsOf α))
    (ops : List (CmdOps α)) (args : List CString) (acc : α) : Prop :=
  Escape P bad (paramCalls rest ops args acc) (parseParams ops args acc)

theorem escape_cons {α : Type} {bad : α → Prop} {calls : CallsOf α} {rest : List (CallsOf α)}
    {f : α → CString → Except Fault (Option α)} {ops : List (CmdOps α)} {acc : α} :
    ParamEscape P bad (calls :: rest) ((param, f) :: ops) (arg :: args) acc ↔
      (∃ c ∈ calls acc arg, ¬ c.InRange P) ∨ ∃ acc', f acc arg = .ok (some acc') ∧
        ParamEscape P bad rest ops args acc' := by
  simp only [ParamEscape, Escape, paramCalls, List.mem_append, or_and_right, exists_or]
  rw [or_assoc]
  refine or_congr_right ?_
  cases hf : f acc arg with
  | error e =>
    refine iff_of_false ?_ (by simp)
    rw [parseParams]
    simp [hf, bind, Except.bind]
  | ok o =>
    cases o with
    | none =>
      refine iff_of_false ?_ (by simp)
      rintro (⟨c, hc, -⟩ | ⟨a, ha, -⟩)
      · cases hc
      · obtain ⟨acc', hacc, -⟩ := parseParams_cons_eq_ok ha
        exact absurd (hf.symm.trans hacc) (by simp)
    | some acc' =>
      simp only [Except.ok.injEq, Option.some.injEq, exists_eq_left']
      rw [parseParams_cons_of_ok hf]

theorem escape_nil {α : Type} {bad : α → Prop} {rest : List (CallsOf α)} {ops : List (CmdOps α)}
    {acc : α} : ParamEscape P bad rest ops [] acc ↔ bad acc := by
  have hcalls : paramCalls rest ops [] acc = [] := by
    cases rest <;> cases ops <;> rfl
  have hparse : parseParams ops [] acc = .ok (.ok acc) := by
    cases ops <;> rfl
  simp [ParamEscape, Escape, hcalls, hparse]

/-- A parameter that makes no calls and reads its token with a function of its own. -/
theorem escape_cons_read {α β : Type} {bad : α → Prop} {rest : List (CallsOf α)}
    {f : α → CString → Except Fault (Option α)} {ops : List (CmdOps α)}
    {acc : α} {o : Option β} {g : β → α} (hf : f acc arg = .ok (o.map g)) :
    ParamEscape P bad (noCalls :: rest) ((param, f) :: ops) (arg :: args) acc ↔
      ∃ b, o = some b ∧ ParamEscape P bad rest ops args (g b) := by
  rw [escape_cons, or_iff_right (by simp [noCalls]), hf]
  constructor
  · rintro ⟨acc', hacc, h⟩
    obtain ⟨b, hb, rfl⟩ := Option.map_eq_some_iff.mp (Except.ok.inj hacc)
    exact ⟨b, hb, h⟩
  · rintro ⟨b, rfl, h⟩
    exact ⟨g b, rfl, h⟩

/-! ## Resource UIDs -/

theorem exists_uidCalls_iff : (∃ c ∈ uidCalls P uid, ¬ c.InRange P) ↔ UidEscapes P uid := by
  unfold uidCalls UidEscapes
  cases huid : uidWith readInt uid with
  | none => simp
  | some r =>
    obtain ⟨idx, multi⟩ := r
    simp only [Option.some.injEq, Prod.mk.injEq]
    split
    · rename_i hout
      refine iff_of_false (by simp) ?_
      rintro ⟨idx', multi', ⟨rfl, -⟩, -, hmax⟩
      omega
    rename_i hin
    split
    · rename_i hphy
      constructor
      · rintro ⟨c, hc, hrange⟩
        obtain rfl := List.mem_singleton.mp hc
        have hrange : ¬ (0 ≤ idx.ifaceNo ∧ idx.ifaceNo < P.maxEthports) := hrange
        exact ⟨idx, multi, ⟨rfl, rfl⟩, hphy, by omega⟩
      · rintro ⟨idx', multi', ⟨rfl, -⟩, -, hmax⟩
        refine ⟨_, List.mem_singleton_self _, fun hrange => ?_⟩
        have hrange : 0 ≤ idx.ifaceNo ∧ idx.ifaceNo < P.maxEthports := hrange
        omega
    · rename_i hphy
      refine iff_of_false (by simp) ?_
      rintro ⟨idx', multi', ⟨rfl, -⟩, hphy', -⟩
      exact hphy hphy'

/-- The calls behind a UID that is read. -/
theorem exists_uidCalls_append_iff {f : PortIdx → List TableCall} :
    (∃ c ∈ uidCalls P uid ++ (match parseResourceUid P uid with
        | .ok (some idx) => f idx
        | _ => []), ¬ c.InRange P) ↔
      UidEscapes P uid ∨ ∃ idx, uidOutcome P uid = .ok (some idx) ∧ ∃ c ∈ f idx, ¬ c.InRange P := by
  simp only [List.mem_append, or_and_right, exists_or]
  rw [exists_uidCalls_iff, parseResourceUid_eq]
  refine or_congr_right ?_
  cases uidOutcome P uid with
  | error f => simp
  | ok o => cases o <;> simp

theorem exists_port_cons_iff {rest : List TableCall} (h : ∀ c ∈ rest, c = .port idx) :
    (∃ c ∈ .port idx :: rest, ¬ c.InRange P) ↔ ¬ idx.InTable P := by
  constructor
  · rintro ⟨c, hc, hrange⟩
    obtain rfl : c = .port idx := (List.mem_cons.mp hc).elim id (h c)
    exact hrange
  · exact fun hout => ⟨_, List.mem_cons_self, hout⟩

/-- A UID that is read has no number past the end. -/
theorem not_uidEscapes {o : Option PortIdx} (h : uidOutcome P uid = .ok o) :
    ¬ UidEscapes P uid := by
  rintro ⟨idx, multi, huid, hphy, hmax⟩
  rw [uidOutcome, huid] at h
  simp only at h
  rw [if_neg (by omega), if_pos ⟨hphy, hmax⟩] at h
  cases h

/-- Only physical ports have queues. -/
theorem uidOutcome_queueNo (h : uidOutcome P uid = .ok (some idx))
    (hphy : idx.ifaceType ≠ .phy) : idx.queueNo = 0 := by
  unfold uidOutcome at h
  split at h
  · cases h
  rename_i idx' multi huid
  obtain rfl : idx' = idx := by
    repeat' split at h
    all_goals first | cases h; done | exact Option.some.inj (Except.ok.inj h)
  simp only [uidWith, Option.bind_eq_bind, Option.bind_eq_some_iff] at huid
  obtain ⟨⟨ptype, str⟩, -, ⟨q, m'⟩, hqueue, no, -, heq⟩ := huid
  obtain ⟨rfl, rfl⟩ : (⟨ptype, no, q⟩ : PortIdx) = idx' ∧ m' = multi := by simpa using heq
  have hphy : ptype ≠ .phy := hphy
  simp only [queueWith] at hqueue
  split at hqueue
  · cases hqueue
    rfl
  · rw [if_neg hphy] at hqueue
    cases hqueue

theorem inTable_iff_inIfaceTable (hq : 0 < P.maxQueuesPerPort)
    (h : uidOutcome P uid = .ok (some idx)) : idx.InTable P ↔ idx.InIfaceTable P := by
  refine ⟨fun hin => hin.inIfaceTable, fun hin => ⟨hin.1, ?_⟩⟩
  by_cases hphy : idx.ifaceType = .phy
  · exact hin.2 hphy
  · have hzero := uidOutcome_queueNo h hphy
    omega

/-! ## `port` -/

/-- The port of a command exists. -/
def PortIdx.Exists (P : Platform) (idx : PortIdx) : Prop := idx.InTable P ∧ idx.HasQueue P

theorem exists_parsePortCalls_iff : (∃ c ∈ parsePortCalls P m flag p uid, ¬ c.InRange P) ↔
      UidEscapes P uid ∨ ∃ idx, uidOutcome P uid = .ok (some idx) ∧ flag = false ∧
        p.wkAction = .add ∧ ¬ idx.InTable P := by
  refine exists_uidCalls_append_iff.trans
    (or_congr_right (exists_congr fun idx => and_congr_right fun _ => ?_))
  split
  · rename_i htested
    obtain ⟨hflag, hadd⟩ : flag = false ∧ p.wkAction = .add := by simpa using htested
    rw [and_iff_right hflag, and_iff_right hadd]
    refine exists_port_cons_iff fun c hc => ?_
    split at hc
    · exact List.mem_singleton.mp hc
    · cases hc
  · rename_i hnot
    refine iff_of_false (by simp) ?_
    rintro ⟨hflag, hadd, -⟩
    exact hnot ⟨by simp [hflag], hadd⟩

theorem parsePortDirectionCalls_inRange
    (hin : p.wkAction = .add → flag = false → p.port.InTable P) :
    ¬ ∃ c ∈ parsePortDirectionCalls P flag p dir, ¬ c.InRange P := by
  rintro ⟨c, hc, hrange⟩
  unfold parsePortDirectionCalls at hc
  split at hc
  · cases hc
  · cases hc
  split at hc
  · cases hc
  split at hc
  · rename_i htested
    obtain ⟨hflag, hadd⟩ : flag = false ∧ p.wkAction = .add := by simpa using htested
    obtain rfl := List.mem_singleton.mp hc
    exact hrange (hin hadd hflag)
  · cases hc

/-- The numbers behind `del_vlantag` are not read. -/
theorem escape_delTag_iff (hops : p.portAttrs.ops = .delVlan) (hlen : args.length ≤ 2) :
    ParamEscape P bad [noCalls, noCalls] tagNumberOps args p ↔ bad p := by
  have hvid (arg : CString) : parsePortVid p arg = .ok ((some ()).map fun _ => p) := by
    simp [parsePortVid, hops]
  have hpcp (arg : CString) : parsePortPcp p arg = .ok ((some ()).map fun _ => p) := by
    simp [parsePortPcp, hops]
  rcases args with _ | ⟨vid, _ | ⟨pcp, _ | ⟨arg, args⟩⟩⟩
  · rw [escape_nil]
  · rw [tagNumberOps, escape_cons_read (hvid vid), escape_nil]
    simp
  · rw [tagNumberOps, escape_cons_read (hvid vid), escape_cons_read (hpcp pcp), escape_nil]
    simp
  · simp at hlen

/-- The numbers behind `add_vlantag`. -/
theorem escape_addTag_iff (hops : p.portAttrs.ops = .addVlan)
    (hbad : ∀ attrs, bad { p with portAttrs := attrs } ↔ bad p) (hlen : args.length ≤ 2) :
    ParamEscape P bad [noCalls, noCalls] tagNumberOps args p ↔
      bad p ∧ (∀ vid ∈ args.head?, (getIntInRange vid 0 ethVlanIdMax).isSome) ∧
        ∀ pcp ∈ args.tail.head?, (getIntInRange pcp 0 sppVlanPcpMax).isSome := by
  have hvid (arg : CString) : parsePortVid p arg = .ok ((getIntInRange arg 0 ethVlanIdMax).map
      fun v => { p with portAttrs :=
        { p.portAttrs with vlantag := { p.portAttrs.vlantag with vid := v, pcp := -1 } } }) := by
    simp [parsePortVid, hops]
  have hpcp (v : ℤ) (arg : CString) : parsePortPcp { p with portAttrs :=
      { p.portAttrs with vlantag := { p.portAttrs.vlantag with vid := v, pcp := -1 } } } arg =
      .ok ((getIntInRange arg 0 sppVlanPcpMax).map fun k => { p with portAttrs :=
        { p.portAttrs with vlantag := { p.portAttrs.vlantag with vid := v, pcp := k } } }) := by
    simp [parsePortPcp, hops]
  rcases args with _ | ⟨vid, _ | ⟨pcp, _ | ⟨arg, args⟩⟩⟩
  · rw [escape_nil]
    simp
  · rw [tagNumberOps, escape_cons_read (hvid vid)]
    simp only [escape_nil, hbad]
    simp [Option.isSome_iff_exists, and_comm]
  · rw [tagNumberOps, escape_cons_read (hvid vid)]
    simp only [escape_cons_read (hpcp _ pcp), escape_nil, hbad]
    simp only [List.head?_cons, List.tail_cons, Option.mem_def, Option.some.injEq, forall_eq',
      Option.isSome_iff_exists]
    constructor
    · rintro ⟨v, hv, k, hk, hb⟩
      exact ⟨hb, ⟨v, hv⟩, k, hk⟩
    · rintro ⟨hb, ⟨v, hv⟩, k, hk⟩
      exact ⟨v, hv, k, hk, hb⟩
  · simp at hlen

/-- The tokens behind the component do not change the port. -/
theorem escape_tag_iff (hzero : p.portAttrs = .zero)
    (hbad : ∀ attrs, bad { p with portAttrs := attrs } ↔ bad p) (hlen : tail.length ≤ 3) :
    ParamEscape P bad [noCalls, noCalls, noCalls]
        (("port vlan operation", parsePortVlanOps) :: tagNumberOps) tail p ↔
      bad p ∧ TagReadable tail := by
  cases tail with
  | nil =>
    rw [escape_nil]
    exact (and_iff_left trivial).symm
  | cons ops args =>
    rw [List.length_cons] at hlen
    rw [escape_cons_read (parsePortVlanOps_eq hzero ops)]
    constructor
    · rintro ⟨o, ho, hesc⟩
      rcases mem_tagOps ho with ⟨rfl, rfl⟩ | ⟨rfl, rfl⟩
      · obtain ⟨hb, hread⟩ := (escape_addTag_iff rfl (fun _ => by simp only [hbad]) (by omega)).mp hesc
        exact ⟨(hbad _).mp hb, .inr ⟨rfl, hread⟩⟩
      · have hb := (escape_delTag_iff rfl (by omega)).mp hesc
        exact ⟨(hbad _).mp hb, .inl rfl⟩
    · rintro ⟨hb, rfl | ⟨rfl, hread⟩⟩
      · exact ⟨.delVlan, rfl, (escape_delTag_iff rfl (by omega)).mpr ((hbad _).mpr hb)⟩
      · exact ⟨.addVlan, rfl, (escape_addTag_iff rfl (fun _ => by simp only [hbad]) (by omega)).mpr
          ⟨(hbad _).mpr hb, hread⟩⟩

theorem parseCompNamePortcmd_eq (hfit : NamesFit P m) {name : CString} :
    parseCompNamePortcmd P m p name =
      .ok ((sppwkGetLcoreId P m name).map fun _ => { p with name := name }) := by
  unfold parseCompNamePortcmd
  cases hid : sppwkGetLcoreId P m name with
  | none => rfl
  | some id =>
    rw [if_neg (by simp), copyName_of_length_lt (hfit.length_lt (by rw [hid]; rfl))]
    rfl

/-- The direction, the component and what follows it. -/
theorem escape_direction_iff (hfit : NamesFit P m) (flag : Bool) (p : CmdPort)
    (hzero : p.portAttrs = .zero) (hnamed : p.port.ifaceType.Named)
    (hin : p.wkAction = .add → flag = false → p.port.InTable P) (dir name : CString)
    (hlen : tail.length ≤ 3) :
    ParamEscape P (fun q : CmdPort => ¬ q.port.Exists P)
        [parsePortDirectionCalls P flag, noCalls, noCalls, noCalls, noCalls]
        ((portOps P m flag).drop 2) (dir :: name :: tail) p ↔
      ¬ p.port.Exists P ∧ (∃ d, (dir, d) ∈ portDirs ∧
        (p.wkAction = .add → p.port.FitsDir P d ∧ (flag = false → ¬ InUse P m p.port d))) ∧
        (sppwkGetLcoreId P m name).isSome ∧ TagReadable tail := by
  have hrest (d : PortDir) : ParamEscape P (fun q : CmdPort => ¬ q.port.Exists P)
      [noCalls, noCalls, noCalls, noCalls] ((portOps P m flag).drop 3) (name :: tail)
        { p with dir := d } ↔
      (sppwkGetLcoreId P m name).isSome ∧ ¬ p.port.Exists P ∧ TagReadable tail := by
    refine Iff.trans (escape_cons_read (parseCompNamePortcmd_eq hfit)) ?_
    rw [Option.isSome_iff_exists, exists_and_right]
    exact and_congr_right fun _ => escape_tag_iff (p := { p with dir := d, name := name }) hzero
      (fun _ => Iff.rfl) hlen
  refine Iff.trans escape_cons ?_
  rw [or_iff_right (parsePortDirectionCalls_inRange hin)]
  have hiface : p.wkAction = .add → flag = false → p.port.InIfaceTable P :=
    fun hadd hflag => (hin hadd hflag).inIfaceTable
  constructor
  · rintro ⟨p', hp', hesc⟩
    obtain ⟨d, hd, htests, rfl⟩ : ∃ d, getListIdx dir portDirs = some d ∧
        (p.wkAction = .add → p.port.FitsDir P d ∧ (flag = false → ¬ InUse P m p.port d)) ∧
        p' = { p with dir := d } := by
      cases hd : getListIdx dir portDirs with
      | none =>
        rw [parsePortDirection_of_no_word flag p hd] at hp'
        cases hp'
      | some d =>
        obtain ⟨hpass, hrefuse⟩ := parsePortDirection_of_word (m := m) flag p hnamed hiface hd
        by_cases htests : p.wkAction = .add →
            p.port.FitsDir P d ∧ (flag = false → ¬ InUse P m p.port d)
        · rw [hpass htests] at hp'
          exact ⟨d, rfl, htests, (Option.some.inj (Except.ok.inj hp')).symm⟩
        · rw [hrefuse htests] at hp'
          cases hp'
    obtain ⟨hname, hnot, htag⟩ := (hrest d).mp hesc
    exact ⟨hnot, ⟨d, mem_of_getListIdx hd, htests⟩, hname, htag⟩
  · rintro ⟨hnot, ⟨d, hd, htests⟩, hname, htag⟩
    have hd := (getListIdx_eq_some_iff portDirs_nodup).mpr hd
    exact ⟨_, (parsePortDirection_of_word flag p hnamed hiface hd).1 htests,
      (hrest d).mpr ⟨hname, hnot, htag⟩⟩

/-- A port that is accepted comes from a UID that is read. -/
theorem exists_uidOutcome_of_parsePort {p' : CmdPort}
    (h : parsePort P m flag p uid = .ok (some p')) : ∃ idx, uidOutcome P uid = .ok (some idx) := by
  rw [parsePort, parseResourceUid_eq] at h
  obtain ⟨o, ho, h⟩ := bind_eq_ok.mp h
  cases o with
  | none => cases h
  | some idx => exact ⟨idx, ho⟩

/-- A physical port that has the queue in a direction has it. -/
theorem PortIdx.FitsDir.hasQueue {d : PortDir}
    (hd : (dir, d) ∈ portDirs) (h : idx.FitsDir P d) : idx.HasQueue P := by
  intro hphy
  have hle := h hphy
  rcases mem_portDirs ((getListIdx_eq_some_iff portDirs_nodup).mpr hd) with ⟨-, rfl⟩ | ⟨-, rfl⟩
  all_goals
    unfold maxPortQueue at hle
    unfold nofQueues
    simp only at hle
    omega

/-- **`port`.** -/
theorem escape_port_iff (hfit : NamesFit P m) (hq : 0 < P.maxQueuesPerPort)
    (hmin : 4 ≤ args.length) (hmax : args.length ≤ 7)
    (hflag : flag = decide (args.length + 1 = 8)) :
    ParamEscape P (fun q : CmdPort => ¬ q.port.Exists P)
        [noCalls, parsePortCalls P m flag, parsePortDirectionCalls P flag, noCalls, noCalls,
          noCalls, noCalls] (portOps P m flag) args .zero ↔ PortEscapes P m args := by
  match args, hmin with
  | act :: uid :: dir :: name :: tail, _ =>
    have hlen : tail.length ≤ 3 := by
      simp only [List.length_cons] at hmax
      omega
    have hfull : flag = false ↔ tail.length ≠ 3 := by
      rw [hflag]
      simp only [List.length_cons, decide_eq_false_iff_not]
      omega
    rw [PortEscapes, and_iff_right hlen]
    refine Iff.trans (escape_cons_read (parsePortAction_eq _ act)) ?_
    refine exists_congr fun action => ?_
    rw [getListIdx_eq_some_iff portActions_nodup]
    refine and_congr_right fun haction => Iff.trans escape_cons ?_
    rw [exists_parsePortCalls_iff]
    by_cases hread : ∃ idx, uidOutcome P uid = .ok (some idx)
    · obtain ⟨idx, huid⟩ := hread
      have hunique {idx' : PortIdx} : uidOutcome P uid = .ok (some idx') ↔ idx = idx' := by
        rw [huid, Except.ok.injEq, Option.some.injEq]
      simp only [hunique, exists_eq_left', not_uidEscapes huid, false_or]
      obtain ⟨hout, hused, hpass⟩ :=
        parsePort_of_uid (m := m) flag { CmdPort.zero with wkAction := action } huid
      have htable := inTable_iff_inIfaceTable hq huid
      have hdir (hin : action = .add → flag = false → idx.InTable P) :=
        escape_direction_iff hfit flag { CmdPort.zero with wkAction := action, port := idx } rfl
          (uidOutcome_named huid) hin dir name hlen
      by_cases htested : action = .add ∧ flag = false
      · by_cases hin : idx.InTable P
        · refine iff_of_false ?_ ?_
          · rintro (⟨-, -, hnot⟩ | ⟨p', hp', hesc⟩)
            · exact hnot hin
            by_cases hboth : InUse P m idx .rx ∧ InUse P m idx .tx
            · rw [hused ⟨htested.1, htested.2, htable.mp hin, hboth⟩] at hp'
              cases hp'
            rw [hpass fun _ _ => ⟨htable.mp hin, hboth⟩] at hp'
            obtain rfl := Option.some.inj (Except.ok.inj hp')
            obtain ⟨hnot, ⟨d, hd, htests⟩, -⟩ := (hdir fun _ _ => hin).mp hesc
            exact hnot ⟨hin, (htests htested.1).1.hasQueue hd⟩
          · rintro (⟨-, -, hnot⟩ | ⟨hdel | hthree, -⟩)
            · exact hnot hin
            · exact absurd (htested.1.symm.trans hdel) (by decide)
            · exact hfull.mp htested.2 hthree
        · exact iff_of_true (.inl ⟨htested.2, htested.1, hin⟩)
            (.inl ⟨htested.1, hfull.mp htested.2, hin⟩)
      · have hnot {q : Prop} (hadd : action = .add) (hf : flag = false) : q :=
          absurd ⟨hadd, hf⟩ htested
        have hkind : action = .del ∨ tail.length = 3 := by
          by_contra hno
          rw [not_or] at hno
          have hact : action = .add := by
            simp only [portActions, List.mem_cons, Prod.mk.injEq, List.not_mem_nil, or_false] at haction
            rcases haction with ⟨-, hadd⟩ | ⟨-, hdel⟩
            · exact hadd
            · exact absurd hdel hno.1
          exact htested ⟨hact, hfull.mpr hno.2⟩
        rw [or_iff_right fun h => htested ⟨h.2.1, h.1⟩,
          or_iff_right fun h => htested ⟨h.1, hfull.mpr h.2.1⟩, and_iff_right hkind, hpass hnot]
        simp only [Except.ok.injEq, Option.some.injEq, exists_eq_left']
        refine Iff.trans (hdir hnot) (and_congr_right fun _ => and_congr_left fun _ => ?_)
        refine exists_congr fun d => and_congr_right fun _ => ?_
        exact ⟨fun h hadd => (h hadd).1, fun h hadd => ⟨h hadd, hnot hadd⟩⟩
    · have hno {q : PortIdx → Prop} : ¬ ∃ idx, uidOutcome P uid = .ok (some idx) ∧ q idx :=
        fun ⟨idx, h, _⟩ => hread ⟨idx, h⟩
      rw [or_iff_left hno, or_iff_left hno, or_iff_left]
      rintro ⟨p', hp', -⟩
      exact hread (exists_uidOutcome_of_parsePort hp')

/-! ## `classifier_table` -/

theorem exists_parseClsPortCalls_iff : (∃ c ∈ parseClsPortCalls P m a uid, ¬ c.InRange P) ↔
      UidEscapes P uid ∨ ∃ idx, uidOutcome P uid = .ok (some idx) ∧ ¬ idx.InTable P := by
  refine exists_uidCalls_append_iff.trans
    (or_congr_right (exists_congr fun idx => and_congr_right fun _ => ?_))
  refine exists_port_cons_iff fun c hc => ?_
  repeat' split at hc
  all_goals first | cases hc; done | exact List.mem_singleton.mp hc

/-- An entry is accepted for a port that has been added and whose entry fits. -/
theorem parseClsPort_eq_some (hvid : vid = if a.clsType = .mac then ethVlanIdMax else a.vid) :
    parseClsPort P m a uid = .ok (some a') ↔
      ∃ idx r, uidOutcome P uid = .ok (some idx) ∧
        getSppwkPort P idx.ifaceType idx.ifaceNo idx.queueNo = .ok (some r) ∧
        isAddedPort m r = true ∧ checkClsPort m { a with vid := vid } r = .ok true ∧
        a' = { a with vid := vid, port := idx } := by
  have hattrs : (if a.clsType = .mac then { a with vid := ethVlanIdMax } else a) =
      { a with vid := vid } := by
    rw [hvid]
    split <;> rfl
  unfold parseClsPort
  rw [parseResourceUid_eq]
  constructor
  · intro h
    obtain ⟨o, ho, h⟩ := bind_eq_ok.mp h
    cases o with
    | none => cases h
    | some idx =>
      obtain ⟨o', hr, h⟩ := bind_eq_ok.mp h
      cases o' with
      | none => cases h
      | some r =>
        simp only [hattrs] at h
        split at h
        · cases h
        rename_i hadded
        obtain ⟨fits, hfits, h⟩ := bind_eq_ok.mp h
        split at h
        · rename_i htrue
          subst htrue
          exact ⟨idx, r, ho, hr, by simpa using hadded, hfits,
            (Option.some.inj (Except.ok.inj h)).symm⟩
        · cases h
  · rintro ⟨idx, r, ho, hr, hadd, hcheck, rfl⟩
    rw [ho]
    simp only [bind, Except.bind, hr, hadd, hattrs, hcheck]
    rfl

/-- The port of an entry gets past the tests. -/
def ClsPortEscapes (P : Platform) (m : MngData) (a : ClsCmdAttrs) (uid : CString) : Prop :=
  UidEscapes P uid ∨ ∃ idx, uidOutcome P uid = .ok (some idx) ∧
    (¬ idx.InTable P ∨ (¬ idx.HasQueue P ∧
      ∃ r, getSppwkPort P idx.ifaceType idx.ifaceNo idx.queueNo = .ok (some r) ∧
        isAddedPort m r = true ∧ checkClsPort m a r = .ok true))

theorem escape_clsPort_iff (uid : CString)
    (hvid : vid = if a.clsType = .mac then ethVlanIdMax else a.vid) :
    ParamEscape P (fun q : ClsCmdAttrs => ¬ q.port.Exists P) [parseClsPortCalls P m]
        [("port", parseClsPort P m)] [uid] a ↔
      ClsPortEscapes P m { a with vid := vid } uid := by
  unfold ClsPortEscapes
  rw [escape_cons, exists_parseClsPortCalls_iff, or_assoc]
  simp only [escape_nil, parseClsPort_eq_some hvid]
  refine or_congr_right ?_
  constructor
  · rintro (⟨idx, huid, hout⟩ | ⟨a', ⟨idx, r, huid, hr, hadd, hcheck, rfl⟩, hnot⟩)
    · exact ⟨idx, huid, .inl hout⟩
    · by_cases hin : idx.InTable P
      · exact ⟨idx, huid, .inr ⟨fun hqueue => hnot ⟨hin, hqueue⟩, r, hr, hadd, hcheck⟩⟩
      · exact ⟨idx, huid, .inl hin⟩
  · rintro ⟨idx, huid, hout | ⟨hqueue, r, hr, hadd, hcheck⟩⟩
    · exact .inl ⟨idx, huid, hout⟩
    · exact .inr ⟨_, ⟨idx, r, huid, hr, hadd, hcheck, rfl⟩, fun hex => hqueue hex.2⟩

theorem parseMacAddr_eq_some {tok : CString} :
    parseMacAddr a tok = .ok (some a') ↔
      ∃ v, sppwkConvertMacStrToInt64 (macText tok) = .ok v ∧ v.msb = false ∧
        a' = { a with mac := macText tok } := by
  show (sppwkConvertMacStrToInt64 (macText tok) >>= _) = _ ↔ _
  rw [bind_eq_ok]
  refine exists_congr fun v => and_congr_right fun _ => ?_
  cases v.msb with
  | true => simp
  | false =>
    rw [if_neg (by decide), and_iff_right rfl, Except.ok.injEq, Option.some.injEq]
    exact eq_comm

/-- The address and the port of an entry. -/
theorem escape_mac_iff {mac : CString}
    (hvid : vid = if a.clsType = .mac then ethVlanIdMax else a.vid) :
    ParamEscape P (fun q : ClsCmdAttrs => ¬ q.port.Exists P) [noCalls, parseClsPortCalls P m]
        [("mac address", parseMacAddr), ("port", parseClsPort P m)] [mac, uid] a ↔
      ∃ v, sppwkConvertMacStrToInt64 (macText mac) = .ok v ∧ v.msb = false ∧
        ClsPortEscapes P m { a with vid := vid, mac := macText mac } uid := by
  rw [escape_cons, or_iff_right (by simp [noCalls])]
  simp only [parseMacAddr_eq_some]
  have hport := escape_clsPort_iff (P := P) (m := m) (a := { a with mac := macText mac }) uid hvid
  constructor
  · rintro ⟨a', ⟨v, hv, hmsb, rfl⟩, hesc⟩
    exact ⟨v, hv, hmsb, hport.mp hesc⟩
  · rintro ⟨v, hv, hmsb, hesc⟩
    exact ⟨_, ⟨v, hv, hmsb, rfl⟩, hport.mpr hesc⟩

theorem clsTypes_nodup : (clsTypes.map Prod.fst).Nodup := by decide

/-- **`classifier_table` with four parameters.** -/
theorem escape_clsMac_iff (act type mac uid : CString) :
    ParamEscape P (fun q : ClsCmdAttrs => ¬ q.port.Exists P)
        [noCalls, noCalls, noCalls, parseClsPortCalls P m] (clsMacOps P m)
        [act, type, mac, uid] .zero ↔
      ClsEscapes P m [act, type, mac, uid] := by
  rw [ClsEscapes, EntryEscapes, clsMacOps, escape_cons_read (parseClsAction_eq _ act)]
  refine exists_congr fun action => ?_
  rw [escape_cons_read (parseClsType_eq _ type), getListIdx_eq_some_iff portActions_nodup]
  simp only [getListIdx_eq_some_iff clsTypes_nodup, exists_and_left]
  refine and_congr_right fun _ => exists_congr fun t => and_congr_right fun _ => ?_
  exact escape_mac_iff rfl

/-- **`classifier_table` with five parameters.** -/
theorem escape_clsVlan_iff (act type vid mac uid : CString) :
    ParamEscape P (fun q : ClsCmdAttrs => ¬ q.port.Exists P)
        [noCalls, noCalls, noCalls, noCalls, parseClsPortCalls P m] (clsVlanOps P m)
        [act, type, vid, mac, uid] .zero ↔
      ClsEscapes P m [act, type, vid, mac, uid] := by
  rw [ClsEscapes, clsVlanOps, escape_cons_read (parseClsAction_eq _ act)]
  constructor
  · rintro ⟨action, haction, hesc⟩
    obtain ⟨t, ht, hesc⟩ := (escape_cons_read (parseClsType_eq _ type)).mp hesc
    obtain ⟨v, hv, hesc⟩ := (escape_cons_read rfl).mp hesc
    obtain ⟨w, hw, hmsb, hesc⟩ := (escape_mac_iff rfl).mp hesc
    exact ⟨v, hv, action, t, w, mem_of_getListIdx haction, mem_of_getListIdx ht, hw, hmsb, hesc⟩
  rintro ⟨v, hv, action, t, w, haction, ht, hw, hmsb, hesc⟩
  refine ⟨action, (getListIdx_eq_some_iff portActions_nodup).mpr haction, ?_⟩
  refine (escape_cons_read (parseClsType_eq _ type)).mpr
    ⟨t, (getListIdx_eq_some_iff clsTypes_nodup).mpr ht, ?_⟩
  refine (escape_cons_read rfl).mpr ⟨v, hv, ?_⟩
  exact (escape_mac_iff rfl).mpr ⟨w, hw, hmsb, hesc⟩

/-! ## Every request -/

theorem escape_map {α : Type} {bad : α → Prop} {bad' : CmdAttrs → Prop} {f : α → CmdAttrs}
    {calls : List TableCall} {r : Except Fault (Except ParseErrMsg α)}
    (hbad : ∀ a, bad' (f a) ↔ bad a) :
    Escape P bad' calls (r >>= fun x => .ok (x.map f)) ↔ Escape P bad calls r := by
  refine or_congr_right ?_
  constructor
  · rintro ⟨cmd, hcmd, hb⟩
    obtain ⟨x, hx, hcmd⟩ := bind_eq_ok.mp hcmd
    obtain ⟨a, rfl, rfl⟩ := map_eq_ok (Except.ok.inj hcmd)
    exact ⟨a, hx, (hbad a).mp hb⟩
  · rintro ⟨a, rfl, hb⟩
    exact ⟨f a, rfl, (hbad a).mpr hb⟩

/-- The command names a port that does not exist. -/
def CmdAttrs.Dangling (P : Platform) (cmd : CmdAttrs) : Prop :=
  ∃ idx, cmd.portIdx = some idx ∧ ¬ idx.Exists P

theorem not_escape_of_no_port {r : Except Fault (Except ParseErrMsg CmdAttrs)}
    (h : ∀ cmd, r = .ok (.ok cmd) → cmd.portIdx = none) : ¬ Escape P (CmdAttrs.Dangling P) [] r := by
  rintro (⟨c, hc, -⟩ | ⟨cmd, hcmd, idx, hidx, -⟩)
  · cases hc
  · exact absurd ((h cmd hcmd).symm.trans hidx) (by simp)

theorem PortEscapes.length (h : PortEscapes P m args) : 4 ≤ args.length ∧ args.length ≤ 7 := by
  match args, h with
  | act :: uid :: dir :: name :: tail, h =>
    have hlen := h.1
    simp only [List.length_cons]
    omega

theorem ClsEscapes.length (h : ClsEscapes P m args) : args.length = 4 ∨ args.length = 5 := by
  match args, h with
  | [_, _, _, _], _ => exact .inl rfl
  | [_, _, _, _, _], _ => exact .inr rfl

/-- The row of a request decides which of the theorems above applies. -/
theorem escape_row_iff (hfit : NamesFit P m) (hq : 0 < P.maxQueuesPerPort) {row : CmdParseAttrs}
    (hmem : row ∈ cmdAttrList) (hmin : row.nofParamsMin ≤ args.length + 1)
    (hmax : args.length + 1 ≤ row.nofParamsMax) :
    Escape P (CmdAttrs.Dangling P) (rowCalls P m row args) (parseCmd P m row args) ↔
      (row.cmdName = "port" ∧ PortEscapes P m args) ∨
        (row.cmdName = "classifier_table" ∧ ClsEscapes P m args) := by
  have hdangling {cmd : CmdAttrs} {idx : PortIdx} (h : cmd.portIdx = some idx) :
      cmd.Dangling P ↔ ¬ idx.Exists P := by
    simp [CmdAttrs.Dangling, h]
  simp only [cmdAttrList, List.mem_cons, List.not_mem_nil, or_false] at hmem
  rcases hmem with rfl | rfl | rfl | rfl | rfl | rfl | rfl
  · rw [or_iff_right (by simp), and_iff_right rfl]
    match args, hmin, hmax with
    | [act, type, mac, uid], _, _ =>
      exact Iff.trans (escape_map fun _ => hdangling rfl) (escape_clsMac_iff act type mac uid)
  · rw [or_iff_right (by simp), and_iff_right rfl]
    match args, hmin, hmax with
    | [act, type, vid, mac, uid], _, _ =>
      exact Iff.trans (escape_map fun _ => hdangling rfl) (escape_clsVlan_iff act type vid mac uid)
  iterate 3
    · refine iff_of_false (not_escape_of_no_port fun cmd h => ?_) (by simp)
      cases h
      rfl
  · refine iff_of_false (not_escape_of_no_port fun cmd h => ?_) (by simp)
    obtain ⟨x, -, h⟩ := bind_eq_ok.mp h
    obtain ⟨c, -, rfl⟩ := map_eq_ok (Except.ok.inj h)
    rfl
  · rw [or_iff_left (by simp), and_iff_right rfl]
    exact Iff.trans (escape_map fun _ => hdangling rfl)
      (escape_port_iff hfit hq (Nat.le_of_succ_le_succ hmin) (Nat.le_of_succ_le_succ hmax) rfl)

theorem escape_request_iff (hfit : NamesFit P m) (hq : 0 < P.maxQueuesPerPort) (req : CString) :
    Escape P (CmdAttrs.Dangling P) (tableCalls P m req) (parseWkCmd P m req) ↔ Escapes P m req := by
  have hmax : sppwkMaxParams = 8 := rfl
  unfold tableCalls parseWkCmd Escapes
  split
  · rename_i hlong
    exact iff_of_false (not_escape_of_no_port fun _ h => by cases h) fun h => by omega
  rename_i hshort
  rw [and_iff_right (by omega)]
  cases htoks : CString.tokens ' ' req with
  | nil =>
    refine iff_of_false ?_ (by simp)
    exact not_escape_of_no_port fun _ h => by cases h
  | cons cmd args =>
    simp only [List.cons.injEq]
    have hargs {q : CString → List CString → Prop} :
        (∃ cmd' args', (cmd = cmd' ∧ args = args') ∧ q cmd' args') ↔ q cmd args := by
      constructor
      · rintro ⟨_, _, ⟨rfl, rfl⟩, h⟩
        exact h
      · exact fun h => ⟨_, _, ⟨rfl, rfl⟩, h⟩
    rw [hargs]
    have hlen : (cmd = "port" ∧ PortEscapes P m args) ∨
        (cmd = "classifier_table" ∧ ClsEscapes P m args) →
        ∃ row ∈ cmdAttrList, row.cmdName = cmd ∧ row.nofParamsMin ≤ args.length + 1 ∧
          args.length + 1 ≤ row.nofParamsMax := by
      rintro (⟨rfl, h⟩ | ⟨rfl, h⟩)
      · have := h.length
        exact ⟨⟨"port", 5, 8, .port⟩, by decide, rfl, by simp only; omega,
          by simp only; omega⟩
      rcases h.length with h4 | h5
      · exact ⟨⟨"classifier_table", 5, 5, .clsMac⟩, by decide, rfl, by simp only; omega,
          by simp only; omega⟩
      · exact ⟨⟨"classifier_table", 6, 6, .clsVlan⟩, by decide, rfl, by simp only; omega,
          by simp only; omega⟩
    split
    · rename_i hmany
      refine iff_of_false (not_escape_of_no_port fun _ h => by cases h) fun h => ?_
      obtain ⟨row, hmem, -, -, hle⟩ := hlen h
      have hrow : ∀ row ∈ cmdAttrList, row.nofParamsMax ≤ 8 := by decide
      have := hrow row hmem
      rw [List.length_cons] at hmany
      omega
    cases hsel : selectRow cmd (args.length + 1) with
    | none =>
      refine iff_of_false (not_escape_of_no_port fun cmd' h => ?_) fun h => ?_
      · rw [parseTokens, hsel] at h
        simp only [setDetailedParseError] at h
        split at h
        · cases h
        · split at h <;> cases h
      · obtain ⟨row, hmem, rfl, hmin, hle⟩ := hlen h
        exact absurd (hsel.symm.trans (selectRow_of_mem hmem hmin hle)) (by simp)
    | some row =>
      have hmem := List.mem_of_find?_eq_some hsel
      have hfits := List.find?_some hsel
      rw [decide_eq_true_eq] at hfits
      obtain ⟨rfl, hmin, hle⟩ := hfits
      rw [parseTokens, hsel]
      exact escape_row_iff hfit hq hmem hmin hle

/-- **Ports index inside the tables.**  In every state that a worker can reach, the
arguments are in range at every lookup that is made while a request is parsed, and the
port of a command that is accepted is in the table and has its queue, if and only if the
request is not one of those whose port gets past the tests. -/
theorem tablesRespected_iff_not_escapes (P : Platform) (hq : 0 < P.maxQueuesPerPort)
    {h : List (State × Request)} {s : State} (hrun : Run (workerSystem P) h s) (req : CString) :
    TablesRespected P s.mng req ↔ ¬ Escapes P s.mng req := by
  rw [← escape_request_iff (namesFit_of_run hrun) hq, Escape, not_or]
  refine and_congr ?_ ?_
  · simp
  · constructor
    · rintro hgood ⟨cmd, hcmd, idx, hidx, hnot⟩
      exact hnot (hgood cmd hcmd idx hidx)
    · intro hgood cmd hcmd idx hidx
      by_contra hnot
      exact hgood ⟨cmd, hcmd, idx, hidx, hnot⟩

theorem tablesRespected_port_add :
    TablesRespected (.sample .vf) (startUp (.sample .vf)).mng "port add phy:1nq1 rx fwd" := by
  refine (tablesRespected_iff_not_escapes (.sample .vf) (by decide) (.start rfl) _).mpr ?_
  rintro ⟨-, cmd, args, htoks, hesc⟩
  have htoks' : CString.tokens ' ' "port add phy:1nq1 rx fwd" =
      ["port", "add", "phy:1nq1", "rx", "fwd"] := by decide
  obtain ⟨rfl, rfl⟩ := List.cons.inj (htoks'.symm.trans htoks)
  have huid : uidOutcome (.sample .vf) "phy:1nq1" = .ok (some ⟨.phy, 1, 1⟩) := by decide
  rcases hesc with ⟨-, -, action, haction, hesc⟩ | ⟨hcmd, -⟩
  · rcases hesc with hesc | ⟨idx, hidx, hesc⟩
    · exact not_uidEscapes huid hesc
    · obtain rfl := Option.some.inj (Except.ok.inj (huid.symm.trans hidx))
      rcases hesc with ⟨-, -, hout⟩ | ⟨-, -, -, hname, -⟩
      · exact hout (by decide)
      · exact absurd hname (by decide)
  · exact absurd hcmd (by decide)

/-- **A port past the end of the tables.**  The number `RTE_MAX_ETHPORTS` is one too
many, but `phy:32` is looked up in the table of queues; and with `nq5` a queue that the
port does not have, in neither direction, is accepted for a classifier entry. -/
theorem not_tablesRespected_last :
    (tableCalls (.sample .vf) (startUp (.sample .vf)).mng "port del phy:32 rx fwd" =
        [.maxQueues 32] ∧
      ¬ TablesRespected (.sample .vf) (startUp (.sample .vf)).mng
        "port del phy:32 rx fwd") ∧
    parseWkCmd (.sample .vf) (startUp (.sample .vf)).mng
        "classifier_table add mac 52:54:00:12:34:56 phy:1nq5" =
      .ok (.ok (.clsMac ⟨.add, .mac, 4095, "52:54:00:12:34:56", ⟨.phy, 1, 5⟩⟩)) ∧
      ¬ TablesRespected (.sample .vf) (startUp (.sample .vf)).mng
        "classifier_table add mac 52:54:00:12:34:56 phy:1nq5" := by
  have hcalls : tableCalls (.sample .vf) (startUp (.sample .vf)).mng
      "port del phy:32 rx fwd" = [.maxQueues 32] := by rfl
  have hparse : parseWkCmd (.sample .vf) (startUp (.sample .vf)).mng
      "classifier_table add mac 52:54:00:12:34:56 phy:1nq5" =
      .ok (.ok (.clsMac ⟨.add, .mac, 4095, "52:54:00:12:34:56", ⟨.phy, 1, 5⟩⟩)) := by
    decide +kernel
  refine ⟨⟨hcalls, fun hresp => ?_⟩, hparse, fun hresp => ?_⟩
  · have hrange := hresp.1 (.maxQueues 32) (by rw [hcalls]; exact List.mem_singleton_self _)
    exact absurd hrange.2 (by decide)
  · have hqueue := (hresp.2 _ hparse _ rfl).2 rfl
    exact absurd hqueue (by decide)

end SoftPatchPanel.Worker
