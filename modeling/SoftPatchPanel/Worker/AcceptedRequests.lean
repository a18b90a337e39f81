import SoftPatchPanel.Worker.CmdParser

/-!
# What an accepted request says

The inversion of the parser: if a request string is accepted, then its tokens
begin with the command's name, their number lies in the range of its row, and the
fields of the command are what the functions of the row's table wrote, one token
after the other.  From this the three theorems at the end read off what the
command runner may rely on.

A field is only known to be what its function writes if its token was there.
`parseWkCmd_worker` therefore gives a type only to requests with all five tokens,
and `parseWkCmd_port` gives freedom of the port only to requests that are shorter
than the maximum.
-/

namespace SoftPatchPanel.Worker

open Transition

variable {P : Platform} {m : MngData} {arg req str name uid : CString} {args rest : List CString}
  {c c' : CmdComp} {p p' : CmdPort} {a a' : ClsCmdAttrs} {flag : Bool} {cmd : CmdAttrs}

/-! ## One parameter after the other -/

theorem parseParams_nil_eq_ok {α : Type} {ops : List (CmdOps α)} {acc r : α}
    (h : parseParams ops [] acc = .ok (.ok r)) : r = acc := by
  cases ops <;> cases h <;> rfl

theorem parseParams_cons_eq_ok {α : Type} {op : CmdOps α} {ops : List (CmdOps α)} {acc r : α}
    (h : parseParams (op :: ops) (arg :: args) acc = .ok (.ok r)) :
    ∃ acc', op.2 acc arg = .ok (some acc') ∧ parseParams ops args acc' = .ok (.ok r) := by
  rw [parseParams, bind_eq_ok] at h
  obtain ⟨o, ho, h⟩ := h
  cases o with
  | none =>
    simp only [setDetailedParseError] at h
    split at h <;> cases h
  | some acc' => exact ⟨acc', ho, h⟩

/-! ## The row of a request -/

theorem parseWkCmd_eq_ok (h : parseWkCmd P m req = .ok (.ok cmd)) :
    ∃ row ∈ cmdAttrList, ∃ args, CString.tokens ' ' req = row.cmdName :: args ∧
      row.nofParamsMin ≤ args.length + 1 ∧ args.length + 1 ≤ row.nofParamsMax ∧
      parseCmd P m row args = .ok (.ok cmd) := by
  unfold parseWkCmd at h
  split at h
  · cases h
  split at h
  · cases h
  cases ht : CString.tokens ' ' req with
  | nil =>
    rw [ht] at h
    cases h
  | cons name args =>
    rw [ht] at h
    simp only [parseTokens] at h
    split at h
    · rename_i row hrow
      have hmem := List.mem_of_find?_eq_some hrow
      have hsel := List.find?_some hrow
      rw [decide_eq_true_eq] at hsel
      exact ⟨row, hmem, args, by rw [hsel.1], hsel.2.1, hsel.2.2, h⟩
    · split at h
      · cases h
      · unfold setDetailedParseError at h
        split at h <;> cases h

/-- Every type of command has one row. -/
theorem row_eq_of_type_eq : ∀ row ∈ cmdAttrList, ∀ row' ∈ cmdAttrList,
    row.type = row'.type → row = row' := by
  decide

/-- The row of a command that has been read, and its parameters. -/
def CmdAttrs.ReadBy (P : Platform) (m : MngData) (row : CmdParseAttrs) (args : List CString) :
    CmdAttrs → Prop
  | .clsMac a => row.type = .clsMac ∧ parseParams (clsMacOps P m) args .zero = .ok (.ok a)
  | .clsVlan a => row.type = .clsVlan ∧ parseParams (clsVlanOps P m) args .zero = .ok (.ok a)
  | .worker c => row.type = .worker ∧ parseParams (compOps P m) args .zero = .ok (.ok c)
  | .port p => row.type = .port ∧
      parseParams (portOps P m (args.length + 1 = row.nofParamsMax)) args .zero = .ok (.ok p)
  | _ => True

theorem readBy_of_parseCmd {row : CmdParseAttrs}
    (h : parseCmd P m row args = .ok (.ok cmd)) : cmd.ReadBy P m row args := by
  unfold parseCmd at h
  split at h
  case h_3 | h_4 | h_5 =>
    cases h
    trivial
  all_goals
    rename_i htype
    obtain ⟨r, hr, h⟩ := bind_eq_ok.mp h
    obtain ⟨c, rfl, rfl⟩ := Transition.map_eq_ok (Except.ok.inj h)
    exact ⟨htype, hr⟩

/-! ## Words of a list -/

theorem mem_of_getListIdx {α : Type} {list : List (CString × α)} {v : α}
    (h : getListIdx str list = some v) : (str, v) ∈ list := by
  rw [getListIdx, List.lookup_eq_some_iff] at h
  obtain ⟨l₁, l₂, rfl, -⟩ := h
  simp

theorem eq_start_of_getListIdx (h : getListIdx str cmdActList = some .start) :
    str = "start" := by
  simpa [cmdActList] using mem_of_getListIdx h

/-! ## `component` -/

/-- The request is a `component start` that does not name lcore and type. -/
def ShortStart (req : CString) : Prop :=
  ∃ args, CString.tokens ' ' req = "component".toList :: "start".toList :: args ∧
    args.length < 3

/-- What is known of a `component` command that has been accepted. -/
structure AcceptedComp (P : Platform) (req : CString) (c : CmdComp) : Prop where
  action : c.wkAction = .start ∨ c.wkAction = .stop
  name_ne : c.name ≠ []
  core_lt : c.core < P.maxLcore
  type_ne : c.wkAction = .start → ¬ ShortStart req → c.wkType ≠ .none

theorem parseCompAction_eq_ok (h : parseCompAction c arg = .ok (some c')) :
    (arg = "start" ∧ c' = { c with wkAction := .start }) ∨
      c' = { c with wkAction := .stop } := by
  unfold parseCompAction at h
  split at h
  · rename_i hidx
    exact .inl ⟨eq_start_of_getListIdx hidx, by cases h; rfl⟩
  · cases h
    exact .inr rfl
  · cases h

theorem copyName_eq_ok (h : copyName arg = .ok (some name)) : name = arg := by
  unfold copyName at h
  repeat' split at h
  all_goals cases h
  rfl

theorem parseCompName_eq_ok
    (h : parseCompName P m c arg = .ok (some c')) : c' = { c with name := arg } := by
  unfold parseCompName at h
  split at h
  · cases h
  · obtain ⟨o, ho, h⟩ := bind_eq_ok.mp h
    obtain ⟨n, rfl, rfl⟩ := Option.map_eq_some_iff.mp (Except.ok.inj h)
    rw [copyName_eq_ok ho]

theorem getUintInRange_le {lo hi n : ℕ} (h : getUintInRange arg lo hi = some n) : n ≤ hi := by
  unfold getUintInRange at h
  repeat' split at h
  all_goals cases h
  omega

theorem parseCompLcoreId_eq_ok (hc : c.core < P.maxLcore)
    (h : parseCompLcoreId P c arg = .ok (some c')) :
    ∃ l < P.maxLcore, c' = { c with core := l } := by
  unfold parseCompLcoreId at h
  split at h
  · cases h
    exact ⟨c.core, hc, rfl⟩
  obtain ⟨l, hl, rfl⟩ := Option.map_eq_some_iff.mp (Except.ok.inj h)
  have hle := getUintInRange_le hl
  have hpos := P.master_lt
  exact ⟨l, by omega, rfl⟩

theorem parseCompType_eq_ok (h : parseCompType P c arg = .ok (some c')) :
    ∃ t, c' = { c with wkType := t } ∧ (c.wkAction = .start → t ≠ .none) := by
  unfold parseCompType at h
  split at h
  · rename_i hact
    cases h
    exact ⟨c.wkType, rfl, fun hs => absurd hs hact⟩
  split at h
  · cases h
  · rename_i ht
    cases h
    exact ⟨_, rfl, fun _ => ht⟩

/-- A `component` command that has been accepted has its action and name, and the two last
parameters change lcore and type only. -/
theorem parseWkCmd_worker_cases (h : parseWkCmd P m req = .ok (.ok (.worker c))) :
    ∃ act name rest c₁ c₂, CString.tokens ' ' req = "component".toList :: act :: name :: rest ∧
      parseCompAction .zero act = .ok (some c₁) ∧ parseCompName P m c₁ name = .ok (some c₂) ∧
      ∃ l < P.maxLcore, ∃ t, c = { c₂ with core := l, wkType := t } ∧
        (2 ≤ rest.length → c.wkAction = .start → t ≠ .none) := by
  obtain ⟨row, hrow, args, htok, hmin, hmax, hcmd⟩ := parseWkCmd_eq_ok h
  obtain ⟨htype, hpar⟩ := readBy_of_parseCmd hcmd
  obtain rfl := row_eq_of_type_eq row hrow ⟨"component".toList, 3, 5, .worker⟩ (by decide) htype
  match args, hmin, hmax with
  | act :: name :: rest, _, hmax =>
    obtain ⟨c₁, h₁, hpar⟩ := parseParams_cons_eq_ok hpar
    obtain ⟨c₂, h₂, hpar⟩ := parseParams_cons_eq_ok hpar
    refine ⟨act, name, rest, c₁, c₂, htok, h₁, h₂, ?_⟩
    have hcore : c₂.core < P.maxLcore := by
      have hpos := P.master_lt
      rw [parseCompName_eq_ok h₂]
      rcases parseCompAction_eq_ok h₁ with ⟨-, rfl⟩ | rfl
      all_goals exact Nat.lt_of_le_of_lt (Nat.zero_le _) hpos
    match rest, hmax with
    | [], _ =>
      obtain rfl := parseParams_nil_eq_ok hpar
      exact ⟨_, hcore, _, rfl, fun hlen => absurd hlen (by simp)⟩
    | [_], _ =>
      obtain ⟨c₃, h₃, hpar⟩ := parseParams_cons_eq_ok hpar
      obtain ⟨l, hl, rfl⟩ := parseCompLcoreId_eq_ok hcore h₃
      obtain rfl := parseParams_nil_eq_ok hpar
      exact ⟨l, hl, _, rfl, fun hlen => absurd hlen (by simp)⟩
    | [_, _], _ =>
      obtain ⟨c₃, h₃, hpar⟩ := parseParams_cons_eq_ok hpar
      obtain ⟨l, hl, rfl⟩ := parseCompLcoreId_eq_ok hcore h₃
      obtain ⟨c₄, h₄, hpar⟩ := parseParams_cons_eq_ok hpar
      obtain ⟨t, rfl, ht⟩ := parseCompType_eq_ok h₄
      obtain rfl := parseParams_nil_eq_ok hpar
      exact ⟨l, hl, t, rfl, fun _ => ht⟩

/-- **An accepted `component` command** starts or stops a named component on an
lcore in range, and a complete start has a type. -/
theorem parseWkCmd_worker
    (h : parseWkCmd P m req = .ok (.ok (.worker c))) : AcceptedComp P req c := by
  obtain ⟨act, name, rest, c₁, c₂, htok, h₁, h₂, l, hl, t, rfl, ht⟩ := parseWkCmd_worker_cases h
  obtain rfl := parseCompName_eq_ok h₂
  have hmem : name ∈ CString.tokens ' ' req := by simp [htok]
  have haction := parseCompAction_eq_ok h₁
  refine ⟨?_, CString.ne_nil_of_mem_tokens hmem, hl, fun hs hns => ?_⟩
  · rcases haction with ⟨-, rfl⟩ | rfl
    · exact .inl rfl
    · exact .inr rfl
  rcases haction with ⟨rfl, -⟩ | rfl
  · -- without the fourth and fifth token the request is a short one
    refine ht (Nat.not_lt.mp fun hlen => hns ⟨name :: rest, htok, ?_⟩) hs
    exact Nat.succ_lt_succ hlen
  · cases hs

/-! ## `port` -/

/-- The request has as many tokens as a `port` request can have, which switches the
tests for ports in use off. -/
def FullLength (req : CString) : Prop := (CString.tokens ' ' req).length = 8

/-- The types that a resource UID can name. -/
def PortType.Named (t : PortType) : Prop := t = .phy ∨ t = .vhost ∨ t = .ring

/-- What is known of a `port` command that has been accepted. -/
structure AcceptedPort (P : Platform) (m : MngData) (req : CString) (p : CmdPort) : Prop where
  action : p.wkAction = .add ∨ p.wkAction = .del
  dir : p.dir = .rx ∨ p.dir = .tx
  named : p.port.ifaceType.Named
  attrs : p.portAttrs = .zero ∨ p.portAttrs.ops ≠ .none ∧ p.portAttrs.dir = p.dir
  free : p.wkAction = .add → ¬ FullLength req →
    sppwkCheckUsedPort P m p.port.ifaceType p.port.ifaceNo p.port.queueNo p.dir = .ok none

/-- An attribute that is accepted is for the direction that the request names. -/
theorem AcceptedPort.attrs_dir {P : Platform} {m : MngData}
    (h : AcceptedPort P m req p) (hops : p.portAttrs.ops ≠ .none) :
    p.portAttrs.dir = p.dir := by
  rcases h.attrs with hzero | ⟨-, hdir⟩
  · exact absurd (by rw [hzero]; rfl) hops
  · exact hdir

theorem resourceType_named {rest : CString} {t : PortType}
    (h : resourceType uid = some (t, rest)) : t.Named := by
  unfold resourceType at h
  repeat' split at h
  all_goals cases h
  · exact .inl rfl
  · exact .inr (.inl rfl)
  · exact .inr (.inr rfl)

theorem parseResourceUid_named {idx : PortIdx}
    (h : parseResourceUid P uid = .ok (some idx)) : idx.ifaceType.Named := by
  unfold parseResourceUid at h
  split at h
  · cases h
  rename_i t str hty
  have ht := resourceType_named hty
  repeat' split at h
  · cases h
  · cases h
  · cases h
  · obtain ⟨q, -, h⟩ := bind_eq_ok.mp h
    split at h
    · cases h
    · cases h
      exact ht
  · cases h
    exact ht

theorem parsePortAction_eq_ok (h : parsePortAction p arg = .ok (some p')) :
    ∃ a, p' = { p with wkAction := a } ∧ (a = .add ∨ a = .del) := by
  unfold parsePortAction at h
  split at h
  · cases h
    exact ⟨.add, rfl, .inl rfl⟩
  · cases h
    exact ⟨.del, rfl, .inr rfl⟩
  · cases h

theorem parsePort_eq_ok (h : parsePort P m flag p arg = .ok (some p')) :
    ∃ idx : PortIdx, p' = { p with port := idx } ∧ idx.ifaceType.Named := by
  obtain ⟨o, ho, h⟩ := bind_eq_ok.mp h
  cases o with
  | none => cases h
  | some idx =>
    refine ⟨idx, ?_, parseResourceUid_named ho⟩
    simp only at h
    split at h
    · obtain ⟨rx, -, h⟩ := bind_eq_ok.mp h
      obtain ⟨tx, -, h⟩ := bind_eq_ok.mp h
      split at h
      · cases h
      · cases h
        rfl
    · cases h
      rfl

theorem parsePortDirection_eq_ok (h : parsePortDirection P m flag p arg = .ok (some p')) :
    ∃ d, p' = { p with dir := d } ∧ (d = .rx ∨ d = .tx) ∧
      (p.wkAction = .add → p.port.ifaceType = .phy →
        p.port.queueNo ≤ maxPortQueue P p.port d) ∧
      (p.wkAction = .add → flag = false →
        sppwkCheckUsedPort P m p.port.ifaceType p.port.ifaceNo p.port.queueNo d = .ok none) := by
  unfold parsePortDirection at h
  split at h
  · cases h
  · cases h
  rename_i d hne hidx
  have hd : d = .rx ∨ d = .tx := by
    have hmem := mem_of_getListIdx hidx
    simp only [portDirList, List.mem_cons, Prod.mk.injEq, List.not_mem_nil, or_false] at hmem
    rcases hmem with ⟨-, hd⟩ | ⟨-, hd⟩ | ⟨-, hd⟩
    · exact absurd hd hne
    · exact .inl hd
    · exact .inr hd
  split at h
  · cases h
  rename_i hqueue
  have hfits (hadd : p.wkAction = .add) (hphy : p.port.ifaceType = .phy) :
      p.port.queueNo ≤ maxPortQueue P p.port d := by
    by_contra hlt
    exact hqueue ⟨⟨hadd, hphy⟩, not_le.mp hlt⟩
  split at h
  · obtain ⟨used, hused, h⟩ := bind_eq_ok.mp h
    split at h
    · cases h
    rename_i hnone
    cases h
    refine ⟨d, rfl, hd, hfits, fun _ _ => ?_⟩
    rw [hused, Option.not_isSome_iff_eq_none.mp hnone]
  · rename_i hover
    cases h
    exact ⟨d, rfl, hd, hfits, fun hadd hflag => absurd ⟨by simp [hflag], hadd⟩ hover⟩

theorem parseCompNamePortcmd_eq_ok
    (h : parseCompNamePortcmd P m p arg = .ok (some p')) : p' = { p with name := arg } := by
  unfold parseCompNamePortcmd at h
  split at h
  · cases h
  · obtain ⟨o, ho, h⟩ := bind_eq_ok.mp h
    obtain ⟨n, rfl, rfl⟩ := Option.map_eq_some_iff.mp (Except.ok.inj h)
    rw [copyName_eq_ok ho]

/-- The three functions for VLAN parameters write the attribute only. -/
theorem parsePortVlanOps_eq_ok
    (hzero : p.portAttrs = .zero) (h : parsePortVlanOps p arg = .ok (some p')) :
    ∃ a : PortAttrs, p' = { p with portAttrs := a } ∧ a.ops ≠ .none ∧ a.dir = p.dir := by
  unfold parsePortVlanOps at h
  split at h
  · split at h
    · cases h
    · cases h
    · rename_i hne _
      cases h
      exact ⟨_, rfl, fun h => hne (by rw [← h]), rfl⟩
  · rename_i hops
    exact absurd (by rw [hzero]; rfl) hops

theorem parsePortVid_eq_ok (h : parsePortVid p arg = .ok (some p')) :
    ∃ tag, p' = { p with portAttrs := { p.portAttrs with vlantag := tag } } := by
  unfold parsePortVid at h
  split at h
  · obtain ⟨vid, -, rfl⟩ := Option.map_eq_some_iff.mp (Except.ok.inj h)
    exact ⟨_, rfl⟩
  · cases h
    exact ⟨p.portAttrs.vlantag, rfl⟩

theorem parsePortPcp_eq_ok (h : parsePortPcp p arg = .ok (some p')) :
    ∃ tag, p' = { p with portAttrs := { p.portAttrs with vlantag := tag } } := by
  unfold parsePortPcp at h
  split at h
  · obtain ⟨pcp, -, rfl⟩ := Option.map_eq_some_iff.mp (Except.ok.inj h)
    exact ⟨_, rfl⟩
  · cases h
    exact ⟨p.portAttrs.vlantag, rfl⟩

/-- The parameters of `port` that every request has. -/
theorem parseParams_port_required {act dir : CString}
    (h : parseParams (portOps P m flag) (act :: uid :: dir :: name :: rest) .zero =
      .ok (.ok p)) :
    ∃ p₄ : CmdPort, p₄.portAttrs = .zero ∧ (p₄.wkAction = .add ∨ p₄.wkAction = .del) ∧
      (p₄.dir = .rx ∨ p₄.dir = .tx) ∧ p₄.port.ifaceType.Named ∧
      (p₄.wkAction = .add → p₄.port.ifaceType = .phy →
        p₄.port.queueNo ≤ maxPortQueue P p₄.port p₄.dir) ∧
      (p₄.wkAction = .add → flag = false →
        sppwkCheckUsedPort P m p₄.port.ifaceType p₄.port.ifaceNo p₄.port.queueNo p₄.dir =
          .ok none) ∧
      parseParams ((portOps P m flag).drop 4) rest p₄ = .ok (.ok p) := by
  obtain ⟨p₁, h₁, h⟩ := parseParams_cons_eq_ok h
  obtain ⟨a, rfl, ha⟩ := parsePortAction_eq_ok h₁
  obtain ⟨p₂, h₂, h⟩ := parseParams_cons_eq_ok h
  obtain ⟨idx, rfl, hidx⟩ := parsePort_eq_ok h₂
  obtain ⟨p₃, h₃, h⟩ := parseParams_cons_eq_ok h
  obtain ⟨d, rfl, hd, hfits, hfree⟩ := parsePortDirection_eq_ok h₃
  obtain ⟨p₄, h₄, h⟩ := parseParams_cons_eq_ok h
  obtain rfl := parseCompNamePortcmd_eq_ok h₄
  exact ⟨_, rfl, ha, hd, hidx, hfits, hfree, h⟩

/-- The optional parameters of `port`. -/
theorem parseParams_port_vlan {p₄ : CmdPort} (hzero : p₄.portAttrs = .zero)
    (h : parseParams ((portOps P m flag).drop 4) rest p₄ = .ok (.ok p)) :
    ∃ a : PortAttrs, p = { p₄ with portAttrs := a } ∧
      (a = .zero ∨ a.ops ≠ .none ∧ a.dir = p₄.dir) := by
  cases rest with
  | nil =>
    obtain rfl := parseParams_nil_eq_ok h
    exact ⟨_, rfl, .inl hzero⟩
  | cons ops rest =>
    obtain ⟨p₅, h₅, h⟩ := parseParams_cons_eq_ok h
    obtain ⟨a, rfl, ha⟩ := parsePortVlanOps_eq_ok hzero h₅
    cases rest with
    | nil =>
      obtain rfl := parseParams_nil_eq_ok h
      exact ⟨a, rfl, .inr ha⟩
    | cons vid rest =>
      obtain ⟨p₆, h₆, h⟩ := parseParams_cons_eq_ok h
      obtain ⟨tag, rfl⟩ := parsePortVid_eq_ok h₆
      cases rest with
      | nil =>
        obtain rfl := parseParams_nil_eq_ok h
        exact ⟨_, rfl, .inr ha⟩
      | cons pcp rest =>
        obtain ⟨p₇, h₇, h⟩ := parseParams_cons_eq_ok h
        obtain ⟨tag', rfl⟩ := parsePortPcp_eq_ok h₇
        cases rest with
        | nil =>
          obtain rfl := parseParams_nil_eq_ok h
          exact ⟨_, rfl, .inr ha⟩
        | cons _ _ => cases h

section

variable (h : parseWkCmd P m req = .ok (.ok (.port p)))
include h

/-- The parameters of a `port` command that has been accepted. -/
theorem parseWkCmd_port_params :
    ∃ (flag : Bool) (act uid dir name : CString) (rest : List CString),
      (¬ FullLength req → flag = false) ∧
      parseParams (portOps P m flag) (act :: uid :: dir :: name :: rest) .zero = .ok (.ok p) := by
  obtain ⟨row, hrow, args, htok, hmin, hmax, hcmd⟩ := parseWkCmd_eq_ok h
  obtain ⟨htype, hpar⟩ := readBy_of_parseCmd hcmd
  obtain rfl := row_eq_of_type_eq row hrow ⟨"port", 5, 8, .port⟩ (by decide) htype
  have hflag : ¬ FullLength req → decide (args.length + 1 = 8) = false := by
    intro hfull
    rw [FullLength, htok, List.length_cons] at hfull
    simpa using hfull
  obtain ⟨act, uid, dir, name, rest, rfl⟩ :
      ∃ act uid dir name rest, args = act :: uid :: dir :: name :: rest := by
    rcases args with _ | ⟨act, _ | ⟨uid, _ | ⟨dir, _ | ⟨name, rest⟩⟩⟩⟩
    · simp at hmin
    · simp at hmin
    · simp at hmin
    · simp at hmin
    · exact ⟨act, uid, dir, name, rest, rfl⟩
  exact ⟨_, act, uid, dir, name, rest, hflag, hpar⟩

/-- **An accepted `port` command** adds or deletes a port of a known type in one
of the two directions; a VLAN operation it names is for that direction; and a
port to be added is not in use, unless the request has the maximal length. -/
theorem parseWkCmd_port : AcceptedPort P m req p := by
  obtain ⟨flag, act, uid, dir, name, rest, hflag, hpar⟩ := parseWkCmd_port_params h
  obtain ⟨p₄, hzero, hact, hdir, hnamed, -, hfree, hrest⟩ := parseParams_port_required hpar
  obtain ⟨a, rfl, ha⟩ := parseParams_port_vlan hzero hrest
  exact ⟨hact, hdir, hnamed, ha, fun hadd hfull => hfree hadd (hflag hfull)⟩

/-- A physical port that is accepted to be added has the queue in the direction. -/
theorem queueNo_le_of_parse (hadd : p.wkAction = .add)
    (hphy : p.port.ifaceType = .phy) : p.port.queueNo ≤ maxPortQueue P p.port p.dir := by
  obtain ⟨flag, act, uid, dir, name, rest, -, hpar⟩ := parseWkCmd_port_params h
  obtain ⟨p₄, hzero, -, -, -, hfits, -, hrest⟩ := parseParams_port_required hpar
  obtain ⟨a, rfl, -⟩ := parseParams_port_vlan hzero hrest
  exact hfits hadd hphy

end

/-! ## `classifier_table` -/

/-- What is known of a `classifier_table` command that has been accepted. -/
structure AcceptedCls (a : ClsCmdAttrs) : Prop where
  action : a.wkAction = .add ∨ a.wkAction = .del
  vid_nonneg : 0 ≤ a.vid
  vid_le : a.vid ≤ ethVlanIdMax
  named : a.port.ifaceType.Named

/-- What holds of the fields from the moment the action is written. -/
structure ClsCmdAttrs.Started (a : ClsCmdAttrs) : Prop where
  action : a.wkAction = .add ∨ a.wkAction = .del
  vid_nonneg : 0 ≤ a.vid
  vid_le : a.vid ≤ ethVlanIdMax

theorem parseClsAction_started (h : parseClsAction .zero arg = .ok (some a)) : a.Started := by
  unfold parseClsAction at h
  split at h
  · cases h
    exact ⟨.inl rfl, by decide, by decide⟩
  · cases h
    exact ⟨.inr rfl, by decide, by decide⟩
  · cases h

theorem parseClsType_started (ha : a.Started)
    (h : parseClsType a arg = .ok (some a')) : a'.Started := by
  unfold parseClsType at h
  split at h
  · cases h
  · cases h
  · cases h
    exact ⟨ha.action, ha.vid_nonneg, ha.vid_le⟩

theorem getIntInRange_mem {lo hi n : ℤ}
    (h : getIntInRange arg lo hi = some n) : lo ≤ n ∧ n ≤ hi := by
  unfold getIntInRange at h
  repeat' split at h
  all_goals cases h
  omega

theorem parseClsVid_started (ha : a.Started)
    (h : parseClsVid a arg = .ok (some a')) : a'.Started := by
  obtain ⟨vid, hvid, rfl⟩ := Option.map_eq_some_iff.mp (Except.ok.inj h)
  obtain ⟨hlo, hhi⟩ := getIntInRange_mem hvid
  exact ⟨ha.action, hlo, hhi⟩

theorem parseMacAddr_started (ha : a.Started)
    (h : parseMacAddr a arg = .ok (some a')) : a'.Started := by
  obtain ⟨res, -, h⟩ := bind_eq_ok.mp h
  split at h
  · cases h
  · cases h
    exact ⟨ha.action, ha.vid_nonneg, ha.vid_le⟩

theorem parseClsPort_accepted (ha : a.Started)
    (h : parseClsPort P m a arg = .ok (some a')) : AcceptedCls a' := by
  obtain ⟨o, ho, h⟩ := bind_eq_ok.mp h
  cases o with
  | none => cases h
  | some idx =>
    have hnamed := parseResourceUid_named ho
    obtain ⟨r, hr, h⟩ := bind_eq_ok.mp h
    cases r with
    | none => cases h
    | some r =>
      simp only at h
      split at h
      · cases h
      obtain ⟨fits, -, h⟩ := bind_eq_ok.mp h
      split at h
      · cases h
        by_cases hmac : a.clsType = .mac
        · rw [if_pos hmac]
          exact ⟨ha.action, (by decide : (0 : ℤ) ≤ ethVlanIdMax), le_refl _, hnamed⟩
        · rw [if_neg hmac]
          exact ⟨ha.action, ha.vid_nonneg, ha.vid_le, hnamed⟩
      · cases h

/-- **An accepted `classifier_table` command** adds or deletes an entry for a VLAN
id in range and a port of a known type. -/
theorem parseWkCmd_cls
    (hcmd : cmd = .clsMac a ∨ cmd = .clsVlan a) (h : parseWkCmd P m req = .ok (.ok cmd)) :
    AcceptedCls a := by
  obtain ⟨row, hrow, args, -, hmin, hmax, h⟩ := parseWkCmd_eq_ok h
  rcases hcmd with rfl | rfl
  · obtain ⟨htype, hpar⟩ := readBy_of_parseCmd h
    obtain rfl := row_eq_of_type_eq row hrow ⟨"classifier_table", 5, 5, .clsMac⟩
      (by decide) htype
    match args, hmin, hmax with
    | [_, _, _, _], _, _ =>
      obtain ⟨a₁, h₁, hpar⟩ := parseParams_cons_eq_ok hpar
      obtain ⟨a₂, h₂, hpar⟩ := parseParams_cons_eq_ok hpar
      obtain ⟨a₃, h₃, hpar⟩ := parseParams_cons_eq_ok hpar
      obtain ⟨a₄, h₄, hpar⟩ := parseParams_cons_eq_ok hpar
      obtain rfl := parseParams_nil_eq_ok hpar
      have hs := parseClsType_started (parseClsAction_started h₁) h₂
      exact parseClsPort_accepted (parseMacAddr_started hs h₃) h₄
  · obtain ⟨htype, hpar⟩ := readBy_of_parseCmd h
    obtain rfl := row_eq_of_type_eq row hrow ⟨"classifier_table", 6, 6, .clsVlan⟩
      (by decide) htype
    match args, hmin, hmax with
    | [_, _, _, _, _], _, _ =>
      obtain ⟨a₁, h₁, hpar⟩ := parseParams_cons_eq_ok hpar
      obtain ⟨a₂, h₂, hpar⟩ := parseParams_cons_eq_ok hpar
      obtain ⟨a₃, h₃, hpar⟩ := parseParams_cons_eq_ok hpar
      obtain ⟨a₄, h₄, hpar⟩ := parseParams_cons_eq_ok hpar
      obtain ⟨a₅, h₅, hpar⟩ := parseParams_cons_eq_ok hpar
      obtain rfl := parseParams_nil_eq_ok hpar
      have hs := parseClsType_started (parseClsAction_started h₁) h₂
      exact parseClsPort_accepted (parseMacAddr_started (parseClsVid_started hs h₃) h₄) h₅

end SoftPatchPanel.Worker
