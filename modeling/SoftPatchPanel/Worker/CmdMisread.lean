import SoftPatchPanel.Worker.CmdLanguage

/-!
# How the parser reads a request

For a predicate `doc` on commands, what somebody meant by a request, the result of the
parser is `Wrong` if it is a fault or a command that is not meant.  Whether it is can
be said without running the parser, by what each of its functions makes of the token
it gets, in the order of the tokens: a token may be undefined to read, may be refused
and be too long for the message that reports it, or may be read, and then the next one
is looked at.  `Misread` says this for the three commands that have parameters, and
`wrong_parseWkCmd` that it is exact.

The parser looks at more than what a request is meant to have: the number of tokens is
only tested against a range, and tokens that an action has no use for are skipped.

The meaning is a parameter.  `Worker.CmdMishandled` takes the one that the documentation
gives to a request.
-/

namespace SoftPatchPanel.Worker

open Transition

variable {P : Platform} {m : MngData} {tok name : CString} {args : List CString} {c : CmdComp}
  {next doc : CmdComp → Prop} {p : CmdPort} {a : ClsCmdAttrs}

/-! ## What goes wrong at one token -/

/-- The token does not fit into the message that reports it. -/
def TooLong (tok : CString) : Prop := sppwkValBufsz ≤ tok.length

instance (tok : CString) : Decidable (TooLong tok) :=
  inferInstanceAs (Decidable (_ ≤ _))

/-- Reading the token is undefined; or it is refused and too long to be reported; or it
is read, and what follows is mishandled. -/
def ReadWrong {α : Type} (tok : CString) (r : Except Fault (Option α)) (next : α → Prop) : Prop :=
  match r with
  | .error _ => True
  | .ok none => TooLong tok
  | .ok (some a) => next a

/-- A result that is not meant. -/
def Wrong {α : Type} (doc : α → Prop) (r : Except Fault (Except ParseErrMsg α)) : Prop :=
  match r with
  | .error _ => True
  | .ok (.error _) => False
  | .ok (.ok a) => ¬ doc a

theorem readWrong_congr {α : Type} {r : Except Fault (Option α)}
    {next next' : α → Prop} (h : ∀ a, r = .ok (some a) → (next a ↔ next' a)) :
    ReadWrong tok r next ↔ ReadWrong tok r next' := by
  unfold ReadWrong
  split
  · rfl
  · rfl
  · exact h _ rfl

theorem readWrong_map {α β : Type} {o : Option α} {f : α → β} {next : β → Prop} :
    ReadWrong tok (.ok (o.map f)) next ↔ ReadWrong tok (.ok o) fun a => next (f a) := by
  cases o with
  | none => rfl
  | some a => rfl

theorem wrong_setDetailedParseError {α : Type} {doc : α → Prop} {msg : CString} :
    Wrong doc (setDetailedParseError msg tok) ↔ TooLong tok := by
  unfold setDetailedParseError TooLong
  split
  · rename_i hlong
    exact iff_of_true trivial hlong
  · rename_i hshort
    exact iff_of_false id hshort

/-- The loop over the tokens goes wrong at the first token or behind it. -/
theorem wrong_parseParams_cons {α : Type} {doc : α → Prop} {param : CString}
    {f : α → CString → Except Fault (Option α)} {ops : List (CmdOps α)} {arg : CString} {acc : α} :
    Wrong doc (parseParams ((param, f) :: ops) (arg :: args) acc) ↔
      ReadWrong arg (f acc arg) fun acc' => Wrong doc (parseParams ops args acc') := by
  rw [parseParams]
  simp only
  cases f acc arg with
  | error f => rfl
  | ok o =>
    cases o with
    | none => exact wrong_setDetailedParseError
    | some acc' => rfl

theorem wrong_parseParams_nil {α : Type} {doc : α → Prop} {ops : List (CmdOps α)} {acc : α} :
    Wrong doc (parseParams ops [] acc) ↔ ¬ doc acc := by
  cases ops with
  | nil => rfl
  | cons op ops => rfl

theorem wrong_map {α β : Type} {doc : β → Prop} {f : α → β}
    {r : Except Fault (Except ParseErrMsg α)} :
    Wrong doc (r >>= fun x => .ok (x.map f)) ↔ Wrong (fun a => doc (f a)) r := by
  cases r with
  | error e => rfl
  | ok x =>
    cases x with
    | error e => rfl
    | ok a => rfl

/-! ## Names -/

/-- The names in the component table fit their fields. -/
def NamesFit (P : Platform) (m : MngData) : Prop :=
  ∀ i < P.maxLcore, (m.comp i).name.length < sppwkNameBufsz

instance (P : Platform) (m : MngData) : Decidable (NamesFit P m) :=
  inferInstanceAs (Decidable (∀ i < _, _))

/-- A name that is in use is short. -/
theorem NamesFit.length_lt (hfit : NamesFit P m)
    (h : (sppwkGetLcoreId P m name).isSome) : name.length < sppwkNameBufsz := by
  obtain ⟨i, hi⟩ := Option.isSome_iff_exists.mp h
  obtain ⟨hlt, hname, -⟩ := sppwkGetLcoreId_eq_some P hi
  exact hname ▸ hfit i hlt

theorem readWrong_copyName {α : Type} {f : CString → α} {next : α → Prop} :
    ReadWrong tok (copyName tok >>= fun n => .ok (n.map f)) next ↔
      sppwkNameBufsz ≤ tok.length ∨ (tok.length < sppwkNameBufsz ∧ next (f tok)) := by
  have hval : sppwkValBufsz = 111 := rfl
  have hname : sppwkNameBufsz = 32 := rfl
  unfold copyName
  split
  · rename_i hlong
    exact iff_of_true hlong (.inl (by omega))
  split
  · rename_i hlong
    exact iff_of_true trivial (.inl hlong)
  · rename_i hshort
    rw [or_iff_right hshort, and_iff_right (by omega)]
    rfl

/-- The name of a component: for a start it has to be new. -/
theorem readWrong_parseCompName (hfit : NamesFit P m) :
    ReadWrong name (parseCompName P m c name) next ↔
      sppwkNameBufsz ≤ name.length ∨ (name.length < sppwkNameBufsz ∧
        (c.wkAction = .start → sppwkGetLcoreId P m name = none) ∧ next { c with name := name }) := by
  have hval : sppwkValBufsz = 111 := rfl
  have hbuf : sppwkNameBufsz = 32 := rfl
  unfold parseCompName
  split
  · rename_i hused
    have hlt := hfit.length_lt hused.2
    have hnot : ¬ TooLong name := by
      unfold TooLong
      omega
    refine iff_of_false hnot ?_
    rintro (hlong | ⟨-, hnew, -⟩)
    · omega
    · rw [hnew hused.1] at hused
      exact absurd hused.2 (by simp)
  · rename_i hnew
    rw [readWrong_copyName]
    have hfree : c.wkAction = .start → sppwkGetLcoreId P m name = none := by
      intro hstart
      by_contra hne
      exact hnew ⟨hstart, Option.isSome_iff_ne_none.mpr hne⟩
    rw [and_iff_right hfree]

/-- The name of a component in a `port` request: it has to be known. -/
theorem readWrong_parseCompNamePortcmd (hfit : NamesFit P m) {next : CmdPort → Prop} :
    ReadWrong name (parseCompNamePortcmd P m p name) next ↔
      (sppwkGetLcoreId P m name = none ∧ TooLong name) ∨
        ((sppwkGetLcoreId P m name).isSome ∧ next { p with name := name }) := by
  unfold parseCompNamePortcmd
  split
  · rename_i hnone
    rw [Option.isNone_iff_eq_none] at hnone
    rw [hnone]
    simp [ReadWrong]
  rename_i hne
  rw [Option.isNone_iff_eq_none] at hne
  have hsome := Option.isSome_iff_ne_none.mpr hne
  rw [copyName_of_length_lt (hfit.length_lt hsome), or_iff_right fun h => hne h.1,
    and_iff_right hsome]
  rfl

/-! ## `component` -/

/-- Behind the name of a component that is to be started.  The lcore and the type may be
missing. -/
def StartMisread (P : Platform) (doc : ℕ → WorkerType → Prop) : List CString → Prop
  | [] => ¬ doc 0 .none
  | [core] => ReadWrong core (.ok (getUintInRange core 0 (P.maxLcore - 1))) fun l => ¬ doc l .none
  | core :: type :: _ =>
    ReadWrong core (.ok (getUintInRange core 0 (P.maxLcore - 1))) fun l =>
      (getCompTypeFromStr P.module type = .none ∧ TooLong type) ∨
        (getCompTypeFromStr P.module type ≠ .none ∧ ¬ doc l (getCompTypeFromStr P.module type))

/-- The parameters of `component`.  What follows the name in a stop is not looked at. -/
def CompMisread (P : Platform) (m : MngData) (doc : CmdComp → Prop) : List CString → Prop
  | act :: name :: rest => rest.length ≤ 2 ∧
    ReadWrong act (.ok (getListIdx act compActions)) fun action =>
      sppwkNameBufsz ≤ name.length ∨
        (action = .start ∧ sppwkGetLcoreId P m name = none ∧
          StartMisread P (fun l type => doc ⟨.start, name, l, type⟩) rest) ∨
        (action = .stop ∧ ¬ doc ⟨.stop, name, 0, .none⟩)
  | _ => False

theorem mem_compActions {act : CString} {action : Action}
    (h : getListIdx act compActions = some action) :
    (act = "start" ∧ action = .start) ∨ (act = "stop" ∧ action = .stop) := by
  simpa [compActions] using mem_of_getListIdx h

theorem readWrong_parseCompLcoreId (hact : c.wkAction = .start) {core : CString} :
    ReadWrong core (parseCompLcoreId P c core) next ↔
      ReadWrong core (.ok (getUintInRange core 0 (P.maxLcore - 1))) fun l =>
        next { c with core := l } := by
  rw [parseCompLcoreId, if_neg (by simp [hact]), readWrong_map]

theorem readWrong_parseCompType (hact : c.wkAction = .start) {type : CString} :
    ReadWrong type (parseCompType P c type) next ↔
      (getCompTypeFromStr P.module type = .none ∧ TooLong type) ∨
        (getCompTypeFromStr P.module type ≠ .none ∧
          next { c with wkType := getCompTypeFromStr P.module type }) := by
  rw [parseCompType, if_neg (by simp [hact])]
  split
  · rename_i hnone
    rw [or_iff_left fun h => h.1 hnone, and_iff_right hnone]
    rfl
  · rename_i hsome
    rw [or_iff_right fun h => hsome h.1, and_iff_right hsome]
    rfl

/-- The tokens behind the name of a component that is to be started. -/
theorem wrong_start_iff {rest : List CString} (hlen : rest.length ≤ 2) :
    Wrong doc (parseParams ((compOps P m).drop 2) rest ⟨.start, name, 0, .none⟩) ↔
      StartMisread P (fun l type => doc ⟨.start, name, l, type⟩) rest := by
  match rest, hlen with
  | [], _ => exact wrong_parseParams_nil
  | [core], _ =>
    refine Iff.trans wrong_parseParams_cons (Iff.trans (readWrong_parseCompLcoreId rfl) ?_)
    exact readWrong_congr fun l _ => wrong_parseParams_nil
  | [core, type], _ =>
    refine Iff.trans wrong_parseParams_cons (Iff.trans (readWrong_parseCompLcoreId rfl) ?_)
    refine readWrong_congr fun l _ => ?_
    refine Iff.trans wrong_parseParams_cons (Iff.trans (readWrong_parseCompType rfl) ?_)
    exact or_congr_right (and_congr_right fun _ => wrong_parseParams_nil)

/-- The tokens behind the name of a component that is to be stopped are not looked at. -/
theorem wrong_stop_iff {rest : List CString} (hlen : rest.length ≤ 2) :
    Wrong doc (parseParams ((compOps P m).drop 2) rest ⟨.stop, name, 0, .none⟩) ↔
      ¬ doc ⟨.stop, name, 0, .none⟩ := by
  match rest, hlen with
  | [], _ | [_], _ => rfl
  | [_, _], _ => rfl

theorem wrong_comp_iff (hfit : NamesFit P m) (hmin : 2 ≤ args.length) (hmax : args.length ≤ 4) :
    Wrong doc (parseParams (compOps P m) args .zero) ↔ CompMisread P m doc args := by
  match args, hmin with
  | act :: name :: rest, _ =>
    have hlen : rest.length ≤ 2 := by
      simp only [List.length_cons] at hmax
      omega
    rw [CompMisread, and_iff_right hlen, compOps, wrong_parseParams_cons, parseCompAction_eq,
      readWrong_map]
    refine readWrong_congr fun action haction => ?_
    refine Iff.trans wrong_parseParams_cons (Iff.trans (readWrong_parseCompName hfit) ?_)
    refine or_congr_right' fun hshort => ?_
    rw [Nat.not_le] at hshort
    rw [and_iff_right hshort]
    rcases mem_compActions (Except.ok.inj haction) with ⟨rfl, rfl⟩ | ⟨rfl, rfl⟩
    · rw [or_iff_left (by simp), and_iff_right rfl]
      show ((Action.start = .start → sppwkGetLcoreId P m name = none) ∧ _) ↔ _
      rw [forall_prop_of_true rfl]
      exact and_congr_right fun _ => wrong_start_iff (m := m) hlen
    · rw [or_iff_right (by simp), and_iff_right rfl]
      rw [and_iff_right (fun h => by cases h)]
      exact wrong_stop_iff (m := m) hlen

/-! ## `port` -/

/-- Behind `add_vlantag`, whose two numbers may be missing. -/
def AddTagMisread (dir : PortDir) (doc : PortAttrs → Prop) : List CString → Prop
  | [] => ¬ doc (tagAttrs .addVlan dir)
  | [vid] => ReadWrong vid (.ok (getIntInRange vid 0 ethVlanIdMax)) fun v =>
      ¬ doc ⟨.addVlan, dir, ⟨v, -1, 0⟩⟩
  | vid :: pcp :: _ =>
    ReadWrong vid (.ok (getIntInRange vid 0 ethVlanIdMax)) fun v =>
      ReadWrong pcp (.ok (getIntInRange pcp 0 sppVlanPcpMax)) fun k =>
        ¬ doc ⟨.addVlan, dir, ⟨v, k, 0⟩⟩

/-- Behind the component in a `port` request.  What follows `del_vlantag` is not looked
at. -/
def TagMisread (dir : PortDir) (doc : PortAttrs → Prop) : List CString → Prop
  | [] => ¬ doc .zero
  | ops :: args => ReadWrong ops (.ok (getListIdx ops tagOps)) fun o =>
      (o = .addVlan ∧ AddTagMisread dir doc args) ∨
        (o = .delVlan ∧ ¬ doc (tagAttrs .delVlan dir))

/-- The parameters of `port`.  Before a port is added, unless the request has the maximal
length, it is looked up in a table that it may not be in. -/
def PortMisread (P : Platform) (m : MngData) (doc : CmdPort → Prop) : List CString → Prop
  | act :: uid :: dir :: name :: tail => tail.length ≤ 3 ∧
    ReadWrong act (.ok (getListIdx act portActions)) fun action =>
      ReadWrong uid (uidOutcome P uid) fun idx =>
        (action = .add ∧ tail.length ≠ 3 ∧ ¬ idx.InIfaceTable P) ∨
        (action = .add ∧ tail.length ≠ 3 ∧ (InUse P m idx .rx ∧ InUse P m idx .tx) ∧
          TooLong uid) ∨
        ((action = .add → tail.length ≠ 3 →
            idx.InIfaceTable P ∧ ¬ (InUse P m idx .rx ∧ InUse P m idx .tx)) ∧
          ReadWrong dir (.ok (getListIdx dir portDirs)) fun d =>
            (action = .add → idx.FitsDir P d ∧ (tail.length ≠ 3 → ¬ InUse P m idx d)) ∧
            ((sppwkGetLcoreId P m name = none ∧ TooLong name) ∨
              ((sppwkGetLcoreId P m name).isSome ∧
                TagMisread d (fun attrs => doc ⟨action, idx, d, name, attrs⟩) tail)))
  | _ => False

theorem readWrong_parsePort {flag : Bool} {uid : CString} {next : CmdPort → Prop} :
    ReadWrong uid (parsePort P m flag p uid) next ↔
      ReadWrong uid (uidOutcome P uid) fun idx =>
        (p.wkAction = .add ∧ flag = false ∧ ¬ idx.InIfaceTable P) ∨
        (p.wkAction = .add ∧ flag = false ∧ (InUse P m idx .rx ∧ InUse P m idx .tx) ∧
          TooLong uid) ∨
        ((p.wkAction = .add → flag = false →
            idx.InIfaceTable P ∧ ¬ (InUse P m idx .rx ∧ InUse P m idx .tx)) ∧
          next { p with port := idx }) := by
  cases huid : uidOutcome P uid with
  | error f =>
    rw [parsePort, parseResourceUid_eq, huid]
    rfl
  | ok o =>
    cases o with
    | none =>
      rw [parsePort, parseResourceUid_eq, huid]
      rfl
    | some idx =>
      obtain ⟨hout, hused, hpass⟩ := parsePort_of_uid (m := m) flag p huid
      by_cases htested : p.wkAction = .add ∧ flag = false
      · by_cases hin : idx.InIfaceTable P
        · by_cases hboth : InUse P m idx .rx ∧ InUse P m idx .tx
          · rw [hused ⟨htested.1, htested.2, hin, hboth⟩]
            simp [ReadWrong, htested, hin, hboth]
          · rw [hpass fun _ _ => ⟨hin, hboth⟩]
            simp only [ReadWrong, htested, hin, hboth]
            simp
        · rw [hout ⟨htested.1, htested.2, hin⟩]
          simp [ReadWrong, htested, hin]
      · have hvacuous : p.wkAction = .add → flag = false →
            idx.InIfaceTable P ∧ ¬ (InUse P m idx .rx ∧ InUse P m idx .tx) :=
          fun hadd hflag => absurd ⟨hadd, hflag⟩ htested
        rw [hpass hvacuous]
        show next _ ↔ (_ ∨ _ ∨ _)
        rw [or_iff_right fun h => htested ⟨h.1, h.2.1⟩, or_iff_right fun h => htested ⟨h.1, h.2.1⟩,
          and_iff_right hvacuous]

theorem readWrong_parsePortDirection {flag : Bool} (hnamed : p.port.ifaceType.Named)
    (hin : p.wkAction = .add → flag = false → p.port.InIfaceTable P) {dir : CString}
    {next : CmdPort → Prop} :
    ReadWrong dir (parsePortDirection P m flag p dir) next ↔
      ReadWrong dir (.ok (getListIdx dir portDirs)) fun d =>
        (p.wkAction = .add → p.port.FitsDir P d ∧ (flag = false → ¬ InUse P m p.port d)) ∧
          next { p with dir := d } := by
  cases hd : getListIdx dir portDirs with
  | none =>
    rw [parsePortDirection_of_no_word flag p hd]
    rfl
  | some d =>
    obtain ⟨hpass, hrefuse⟩ := parsePortDirection_of_word (m := m) flag p hnamed hin hd
    by_cases htests : p.wkAction = .add →
        p.port.FitsDir P d ∧ (flag = false → ¬ InUse P m p.port d)
    · rw [hpass htests]
      show next _ ↔ (_ ∧ _)
      rw [and_iff_right htests]
    · rw [hrefuse htests]
      -- the two words are short
      refine iff_of_false (show ¬ TooLong dir from ?_) fun h => htests h.1
      rcases mem_portDirs hd with ⟨rfl, -⟩ | ⟨rfl, -⟩ <;> decide

theorem mem_tagOps {ops : CString} {o : PortOps} (h : getListIdx ops tagOps = some o) :
    (ops = "add_vlantag" ∧ o = .addVlan) ∨ (ops = "del_vlantag" ∧ o = .delVlan) := by
  simpa [tagOps] using mem_of_getListIdx h

/-- The numbers behind `add_vlantag`. -/
theorem wrong_addTag_iff {doc : CmdPort → Prop} (hlen : args.length ≤ 2) :
    Wrong doc (parseParams tagNumberOps args { p with portAttrs := tagAttrs .addVlan p.dir }) ↔
      AddTagMisread p.dir (fun attrs => doc { p with portAttrs := attrs }) args := by
  match args, hlen with
  | [], _ => exact wrong_parseParams_nil
  | [vid], _ =>
    refine Iff.trans wrong_parseParams_cons (Iff.trans readWrong_map ?_)
    exact readWrong_congr fun v _ => wrong_parseParams_nil
  | [vid, pcp], _ =>
    refine Iff.trans wrong_parseParams_cons (Iff.trans readWrong_map ?_)
    refine readWrong_congr fun v _ => ?_
    refine Iff.trans wrong_parseParams_cons (Iff.trans readWrong_map ?_)
    exact readWrong_congr fun k _ => wrong_parseParams_nil

/-- The tokens behind `del_vlantag` are not looked at. -/
theorem parseParams_delTag (hops : p.portAttrs.ops = .delVlan)
    (hlen : args.length ≤ 2) : parseParams tagNumberOps args p = .ok (.ok p) := by
  match args, hlen with
  | [], _ => rfl
  | [vid], _ =>
    simp [tagNumberOps, parseParams, parsePortVid, hops, bind, Except.bind]
  | [vid, pcp], _ =>
    simp [tagNumberOps, parseParams, parsePortVid, parsePortPcp, hops, bind, Except.bind]

/-- The tokens behind the component in a `port` request. -/
theorem wrong_tag_iff {doc : CmdPort → Prop} (hzero : p.portAttrs = .zero)
    {tail : List CString} (hlen : tail.length ≤ 3) :
    Wrong doc (parseParams (("port vlan operation", parsePortVlanOps) :: tagNumberOps)
        tail p) ↔ TagMisread p.dir (fun attrs => doc { p with portAttrs := attrs }) tail := by
  cases tail with
  | nil =>
    rw [wrong_parseParams_nil, TagMisread, ← hzero]
  | cons ops args =>
    rw [List.length_cons] at hlen
    rw [wrong_parseParams_cons, parsePortVlanOps_eq hzero, readWrong_map, TagMisread]
    refine readWrong_congr fun o ho => ?_
    rcases mem_tagOps (Except.ok.inj ho) with ⟨rfl, rfl⟩ | ⟨rfl, rfl⟩
    · rw [or_iff_left (by simp), and_iff_right rfl]
      exact wrong_addTag_iff (by omega)
    · rw [or_iff_right (by simp), and_iff_right rfl, parseParams_delTag rfl (by omega)]
      rfl

/-- **`port`.** -/
theorem wrong_port_iff (hfit : NamesFit P m) {doc : CmdPort → Prop}
    (hmin : 4 ≤ args.length) (hmax : args.length ≤ 7) :
    Wrong doc (parseParams (portOps P m (args.length + 1 = 8)) args .zero) ↔
      PortMisread P m doc args := by
  match args, hmin with
  | act :: uid :: dir :: name :: tail, _ =>
    have hlen : tail.length ≤ 3 := by
      simp only [List.length_cons] at hmax
      omega
    have hflag : decide ((act :: uid :: dir :: name :: tail).length + 1 = 8) = false ↔
        tail.length ≠ 3 := by
      simp only [List.length_cons, decide_eq_false_iff_not]
      omega
    generalize decide ((act :: uid :: dir :: name :: tail).length + 1 = 8) = flag at hflag ⊢
    rw [PortMisread, and_iff_right hlen, portOps, wrong_parseParams_cons, parsePortAction_eq,
      readWrong_map]
    refine readWrong_congr fun action haction => ?_
    refine Iff.trans wrong_parseParams_cons (Iff.trans readWrong_parsePort ?_)
    rw [hflag]
    refine readWrong_congr fun idx hidx => or_congr_right (or_congr_right (and_congr_right
      fun htests => ?_))
    refine Iff.trans wrong_parseParams_cons
      (Iff.trans (readWrong_parsePortDirection (uidOutcome_named hidx) ?_) ?_)
    · intro hadd hf
      exact (htests hadd (hflag.mp hf)).1
    rw [hflag]
    refine readWrong_congr fun d hd => and_congr_right fun hdir => ?_
    refine Iff.trans wrong_parseParams_cons
      (Iff.trans (readWrong_parseCompNamePortcmd hfit) ?_)
    exact or_congr_right (and_congr_right fun _ => wrong_tag_iff rfl hlen)

/-! ## `classifier_table` -/

/-- The text of a MAC address: the word `default` stands for one. -/
def macText (tok : CString) : CString :=
  if tok = "default" then clsDummyAddrStr else tok

/-- The address of a `classifier_table` request may be too long for the buffer that it
is taken apart in. -/
def MacMishandled (tok : CString) (next : Prop) : Prop :=
  strLenShort ≤ (macText tok).length ∨
    ∃ mac, sppwkConvertMacStrToInt64 (macText tok) = .ok mac ∧ mac.msb = false ∧ next

/-- The port of a `classifier_table` request is looked up in a table that it may not be
in; and an entry that is accepted may not be documented. -/
def EntryMishandled (P : Platform) (m : MngData) (a : ClsCmdAttrs) (uid : CString)
    (doc : PortIdx → Prop) : Prop :=
  ReadWrong uid (uidOutcome P uid) fun idx => ¬ idx.InIfaceTable P ∨
    ∃ r, getSppwkPort P idx.ifaceType idx.ifaceNo idx.queueNo = .ok (some r) ∧
      ((isAddedPort m r = true ∧ checkClsPort m a r = .ok true ∧ ¬ doc idx) ∨
        (¬ (isAddedPort m r = true ∧ checkClsPort m a r = .ok true) ∧ TooLong uid))

/-- The parameters of `classifier_table`, four or five.  The type may be the one of the
other form. -/
def ClsMisread (P : Platform) (m : MngData) (docMac docVlan : ClsCmdAttrs → Prop) :
    List CString → Prop
  | [act, type, mac, uid] =>
    ReadWrong act (.ok (getListIdx act portActions)) fun action =>
      ReadWrong type (.ok (getListIdx type clsTypes)) fun t =>
        MacMishandled mac <|
          EntryMishandled P m ⟨action, t, if t = .mac then ethVlanIdMax else 0, macText mac, .zero⟩
            uid fun idx =>
              docMac ⟨action, t, if t = .mac then ethVlanIdMax else 0, macText mac, idx⟩
  | [act, type, vid, mac, uid] =>
    ReadWrong act (.ok (getListIdx act portActions)) fun action =>
      ReadWrong type (.ok (getListIdx type clsTypes)) fun t =>
        ReadWrong vid (.ok (getIntInRange vid 0 ethVlanIdMax)) fun v =>
          MacMishandled mac <|
            EntryMishandled P m
              ⟨action, t, if t = .mac then ethVlanIdMax else v, macText mac, .zero⟩
              uid fun idx =>
                docVlan ⟨action, t, if t = .mac then ethVlanIdMax else v, macText mac, idx⟩
  | _ => False

theorem readWrong_parseMacAddr {next : ClsCmdAttrs → Prop} :
    ReadWrong tok (parseMacAddr a tok) next ↔
      MacMishandled tok (next { a with mac := macText tok }) := by
  have hshort : strLenShort = 32 := rfl
  have hval : sppwkValBufsz = 111 := rfl
  unfold parseMacAddr MacMishandled
  show ReadWrong tok (sppwkConvertMacStrToInt64 (macText tok) >>= _) next ↔ _
  unfold sppwkConvertMacStrToInt64
  split
  · rename_i hlong
    exact iff_of_true trivial (.inl hlong)
  rename_i hlt
  rw [or_iff_right hlt]
  have hfits : ¬ TooLong tok := by
    unfold TooLong
    unfold macText at hlt
    split at hlt
    · rename_i heq
      subst heq
      decide
    · omega
  simp only [Except.ok.injEq, exists_eq_left']
  show ReadWrong tok (if _ then _ else _) next ↔ _
  split
  · rename_i hmsb
    refine iff_of_false hfits fun h => ?_
    exact absurd (hmsb.symm.trans h.1) (by decide)
  · rename_i hmsb
    rw [and_iff_right (by simpa using hmsb)]
    rfl

theorem exists_checkClsPort (hmac : a.mac.length < strLenShort) (r : PortRef) :
    ∃ b, checkClsPort m a r = .ok b := by
  unfold checkClsPort
  split
  · exact ⟨_, rfl⟩
  · rw [sppwkConvertMacStrToInt64, if_neg (by omega)]
    simp only [bind, Except.bind]
    split <;> exact ⟨_, rfl⟩
  · exact ⟨_, rfl⟩

/-- The port of an entry, with the tests on the entry that is there. -/
theorem readWrong_parseClsPort {uid : CString} {doc : ClsCmdAttrs → Prop}
    {vid : ℤ} (hvid : vid = if a.clsType = .mac then ethVlanIdMax else a.vid)
    (hmac : a.mac.length < strLenShort) :
    ReadWrong uid (parseClsPort P m a uid) (fun a' => ¬ doc a') ↔
      EntryMishandled P m { a with vid := vid } uid fun idx =>
        doc { a with vid := vid, port := idx } := by
  have hattrs : (if a.clsType = .mac then { a with vid := ethVlanIdMax } else a) =
      { a with vid := vid } := by
    rw [hvid]
    split <;> rfl
  unfold parseClsPort EntryMishandled
  rw [parseResourceUid_eq]
  cases huid : uidOutcome P uid with
  | error f => rfl
  | ok o =>
    cases o with
    | none => rfl
    | some idx =>
      show ReadWrong uid (getSppwkPort P idx.ifaceType idx.ifaceNo idx.queueNo >>= _) _ ↔ (_ ∨ _)
      by_cases hin : idx.InIfaceTable P
      · obtain ⟨r, hr⟩ := getSppwkPort_of_inIfaceTable (uidOutcome_named huid) hin
        obtain ⟨fits, hfits⟩ := exists_checkClsPort (m := m) (a := { a with vid := vid }) hmac r
        rw [or_iff_right (not_not.mpr hin), hr]
        simp only [Except.ok.injEq, Option.some.injEq, exists_eq_left']
        show ReadWrong uid (if _ then _ else _) _ ↔ _
        split
        · rename_i hadded
          have hnot : ¬ isAddedPort m r = true := by simpa using hadded
          rw [or_iff_right fun h => hnot h.1, and_iff_right fun h => hnot h.1]
          rfl
        rename_i hadded
        have hadd : isAddedPort m r = true := by simpa using hadded
        rw [hattrs, hfits]
        show ReadWrong uid (if fits = true then _ else _) _ ↔ _
        split
        · rename_i htrue
          subst htrue
          rw [or_iff_left fun h => h.1 ⟨hadd, rfl⟩, and_iff_right hadd, and_iff_right rfl]
          rfl
        rename_i hfalse
        have hne : ¬ (Except.ok fits : Except Fault Bool) = .ok true :=
          fun h => hfalse (Except.ok.inj h)
        rw [or_iff_right fun h => hne h.2.1, and_iff_right fun h => hne h.2]
        rfl
      · rw [getSppwkPort_of_not_inIfaceTable (uidOutcome_named huid) hin]
        exact iff_of_true trivial (.inl hin)

/-- **`classifier_table` with four parameters.** -/
theorem wrong_clsMac_iff {doc doc' : ClsCmdAttrs → Prop} (act type mac uid : CString) :
    Wrong doc (parseParams (clsMacOps P m) [act, type, mac, uid] .zero) ↔
      ClsMisread P m doc doc' [act, type, mac, uid] := by
  rw [ClsMisread, clsMacOps, wrong_parseParams_cons, parseClsAction_eq, readWrong_map]
  refine readWrong_congr fun action _ => ?_
  rw [wrong_parseParams_cons, parseClsType_eq, readWrong_map]
  refine readWrong_congr fun t _ => ?_
  rw [wrong_parseParams_cons, readWrong_parseMacAddr]
  refine or_congr_right' fun hmac => exists_congr fun _ => and_congr_right fun _ =>
    and_congr_right fun _ => ?_
  rw [wrong_parseParams_cons]
  simp only [wrong_parseParams_nil]
  exact readWrong_parseClsPort rfl (Nat.not_le.mp hmac)

/-- **`classifier_table` with five parameters.** -/
theorem wrong_clsVlan_iff {doc doc' : ClsCmdAttrs → Prop} (act type vid mac uid : CString) :
    Wrong doc (parseParams (clsVlanOps P m) [act, type, vid, mac, uid] .zero) ↔
      ClsMisread P m doc' doc [act, type, vid, mac, uid] := by
  rw [ClsMisread, clsVlanOps, wrong_parseParams_cons, parseClsAction_eq, readWrong_map]
  refine readWrong_congr fun action _ => ?_
  rw [wrong_parseParams_cons, parseClsType_eq, readWrong_map]
  refine readWrong_congr fun t _ => ?_
  rw [wrong_parseParams_cons, parseClsVid, readWrong_map]
  refine readWrong_congr fun v _ => ?_
  rw [wrong_parseParams_cons, readWrong_parseMacAddr]
  refine or_congr_right' fun hmac => exists_congr fun _ => and_congr_right fun _ =>
    and_congr_right fun _ => ?_
  rw [wrong_parseParams_cons]
  simp only [wrong_parseParams_nil]
  exact readWrong_parseClsPort rfl (Nat.not_le.mp hmac)

/-! ## Every request -/

/-- The commands that have no parameter. -/
def oneWordCmds : List (CString × CmdAttrs) :=
  [("_get_client_id", .clientId), ("status", .status), ("exit", .exit)]

/-- **The requests whose result is not meant**, by their tokens: there is none at all, an
unknown command does not fit the message that reports it, a command of one word is not
meant, or a parameter goes wrong. -/
def Misread (P : Platform) (m : MngData) (doc : CmdAttrs → Prop) : List CString → Prop
  | [] => True
  | cmd :: args => args.length < sppwkMaxParams ∧
      ((cmd = "component" ∧ CompMisread P m (fun c => doc (.worker c)) args) ∨
        (cmd = "port" ∧ PortMisread P m (fun p => doc (.port p)) args) ∨
        (cmd = "classifier_table" ∧
          ClsMisread P m (fun a => doc (.clsMac a)) (fun a => doc (.clsVlan a)) args) ∨
        (cmdAttrList.any (·.cmdName = cmd) = false ∧ TooLong cmd) ∨
        (args = [] ∧ ∃ word ∈ oneWordCmds, cmd = word.1 ∧ ¬ doc word.2))

theorem CompMisread.length (h : CompMisread P m doc args) : 2 ≤ args.length ∧ args.length ≤ 4 := by
  match args, h with
  | _ :: _ :: rest, h =>
    have hlen := h.1
    simp only [List.length_cons]
    omega

theorem PortMisread.length {doc : CmdPort → Prop}
    (h : PortMisread P m doc args) : 4 ≤ args.length ∧ args.length ≤ 7 := by
  match args, h with
  | _ :: _ :: _ :: _ :: tail, h =>
    have hlen := h.1
    simp only [List.length_cons]
    omega

variable {doc : CmdAttrs → Prop}

theorem wrong_parseTokens_component (hfit : NamesFit P m) (args : List CString) :
    Wrong doc (parseTokens P m ("component" :: args)) ↔
      CompMisread P m (fun c => doc (.worker c)) args := by
  by_cases hcount : 2 ≤ args.length ∧ args.length ≤ 4
  · rw [parseTokens_component hcount.1 hcount.2, wrong_map]
    exact wrong_comp_iff hfit hcount.1 hcount.2
  have hrow : ∀ row ∈ cmdAttrList, row.cmdName = "component" →
      row.nofParamsMin = 3 ∧ row.nofParamsMax = 5 := by decide
  rw [parseTokens_of_count (by decide) fun row hmem hname hmin => ?_]
  · exact iff_of_false id fun h => hcount h.length
  · have := hrow row hmem hname
    omega

theorem wrong_parseTokens_port (hfit : NamesFit P m) (args : List CString) :
    Wrong doc (parseTokens P m ("port" :: args)) ↔
      PortMisread P m (fun p => doc (.port p)) args := by
  by_cases hcount : 4 ≤ args.length ∧ args.length ≤ 7
  · rw [parseTokens_port hcount.1 hcount.2, wrong_map]
    exact wrong_port_iff hfit hcount.1 hcount.2
  have hrow : ∀ row ∈ cmdAttrList, row.cmdName = "port" →
      row.nofParamsMin = 5 ∧ row.nofParamsMax = 8 := by decide
  rw [parseTokens_of_count (by decide) fun row hmem hname hmin => ?_]
  · exact iff_of_false id fun h => hcount h.length
  · have := hrow row hmem hname
    omega

theorem parseTokens_cls_of_count (hmac : args.length ≠ 4) (hvlan : args.length ≠ 5) :
    parseTokens P m ("classifier_table" :: args) =
      .ok (.error ⟨.wrongFormat, [], []⟩) := by
  have hrow : ∀ row ∈ cmdAttrList, row.cmdName = "classifier_table" →
      (row.nofParamsMin = 5 ∧ row.nofParamsMax = 5) ∨
        (row.nofParamsMin = 6 ∧ row.nofParamsMax = 6) := by decide
  refine parseTokens_of_count (by decide) fun row hmem hname hmin => ?_
  have := hrow row hmem hname
  omega

theorem wrong_parseTokens_cls (args : List CString) :
    Wrong doc (parseTokens P m ("classifier_table" :: args)) ↔
      ClsMisread P m (fun a => doc (.clsMac a)) (fun a => doc (.clsVlan a)) args := by
  match args with
  | [act, type, mac, uid] =>
    rw [parseTokens_clsMac, wrong_map]
    exact wrong_clsMac_iff act type mac uid
  | [act, type, vid, mac, uid] =>
    rw [parseTokens_clsVlan, wrong_map]
    exact wrong_clsVlan_iff act type vid mac uid
  | [] | [_] | [_, _] | [_, _, _] | _ :: _ :: _ :: _ :: _ :: _ :: _ =>
    rw [parseTokens_cls_of_count (by simp) (by simp)]
    exact iff_of_false id id

/-- The commands of one word are accepted as what they are, and refused with anything
behind them. -/
theorem wrong_parseTokens_word {word : CString × CmdAttrs}
    (hword : word ∈ oneWordCmds) (args : List CString) :
    Wrong doc (parseTokens P m (word.1 :: args)) ↔ args = [] ∧ ¬ doc word.2 := by
  have hknown : ∀ word ∈ oneWordCmds, cmdAttrList.any (·.cmdName = word.1) = true := by decide
  have hrow : ∀ word ∈ oneWordCmds, ∀ row ∈ cmdAttrList, row.cmdName = word.1 →
      row.nofParamsMax = 1 := by decide
  cases args with
  | nil =>
    have hparse : parseTokens P m [word.1] = .ok (.ok word.2) := by
      simp only [oneWordCmds, List.mem_cons, List.not_mem_nil, or_false] at hword
      rcases hword with rfl | rfl | rfl <;> rfl
    rw [hparse, and_iff_right rfl]
    rfl
  | cons arg args =>
    rw [parseTokens_of_count (hknown word hword) fun row hmem hname _ => ?_]
    · exact iff_of_false id (by simp)
    · rw [hrow word hword row hmem hname]
      simp

/-- Every command has parameters or is of one word. -/
theorem cmd_cases : ∀ row ∈ cmdAttrList, (row.cmdName = "component" ∨
    row.cmdName = "port" ∨ row.cmdName = "classifier_table") ∨
    ∃ word ∈ oneWordCmds, row.cmdName = word.1 := by
  decide

/-- The words of the commands differ, and are known. -/
theorem oneWordCmds_ne : ∀ word ∈ oneWordCmds, word.1 ≠ "component" ∧
    word.1 ≠ "port" ∧ word.1 ≠ "classifier_table" ∧
    cmdAttrList.any (·.cmdName = word.1) = true ∧
    ∀ word' ∈ oneWordCmds, word.1 = word'.1 → word = word' := by
  decide

theorem wrong_parseTokens (hfit : NamesFit P m) (cmd : CString)
    (hlen : args.length < sppwkMaxParams) :
    Wrong doc (parseTokens P m (cmd :: args)) ↔ Misread P m doc (cmd :: args) := by
  rw [Misread, and_iff_right hlen]
  cases hknown : cmdAttrList.any (·.cmdName = cmd) with
  | false =>
    have hsel : selectRow cmd (args.length + 1) = none := by
      rw [selectRow, List.find?_eq_none]
      rw [List.any_eq_false] at hknown
      intro row hmem hfits
      rw [decide_eq_true_eq] at hfits
      exact hknown row hmem (by simpa using hfits.1)
    have hparse : parseTokens P m (cmd :: args) = setDetailedParseError "command" cmd := by
      rw [parseTokens, hsel]
      exact if_neg (by rw [hknown]; decide)
    have hne {word : CString} (hword : cmdAttrList.any (·.cmdName = word) = true) : cmd ≠ word := by
      rintro rfl
      exact absurd (hknown.symm.trans hword) (by decide)
    rw [hparse, wrong_setDetailedParseError, or_iff_right fun h => hne (by decide) h.1,
      or_iff_right fun h => hne (by decide) h.1, or_iff_right fun h => hne (by decide) h.1,
      or_iff_left, and_iff_right rfl]
    rintro ⟨-, word, hword, hcmd, -⟩
    exact hne (oneWordCmds_ne word hword).2.2.2.1 hcmd
  | true =>
    rw [List.any_eq_true] at hknown
    obtain ⟨row, hmem, hname⟩ := hknown
    obtain rfl : row.cmdName = cmd := of_decide_eq_true hname
    have hother {word word' : CString} {p : Prop} (hne : word ≠ word') : ¬ (word = word' ∧ p) :=
      fun h => hne h.1
    have hunknown {p : Prop} : ¬ (true = false ∧ p) := fun h => by cases h.1
    have hword {cmd : CString} {p : Prop} {q : CString × CmdAttrs → Prop}
        (hne : ∀ word ∈ oneWordCmds, word.1 ≠ cmd) :
        ¬ (p ∧ ∃ word ∈ oneWordCmds, cmd = word.1 ∧ q word) := by
      rintro ⟨-, word, hmem, hcmd, -⟩
      exact hne word hmem hcmd.symm
    rcases cmd_cases row hmem with (hcmd | hcmd | hcmd) | ⟨word, hmem, hcmd⟩
    · rw [hcmd, wrong_parseTokens_component hfit, and_iff_right rfl, or_iff_left]
      rintro (h | h | h | h)
      · exact hother (by decide) h
      · exact hother (by decide) h
      · exact hunknown h
      · exact hword (fun word hword => (oneWordCmds_ne word hword).1) h
    · rw [hcmd, wrong_parseTokens_port hfit, and_iff_right rfl, or_iff_right (hother (by decide)),
        or_iff_left]
      rintro (h | h | h)
      · exact hother (by decide) h
      · exact hunknown h
      · exact hword (fun word hword => (oneWordCmds_ne word hword).2.1) h
    · rw [hcmd, wrong_parseTokens_cls, and_iff_right rfl, or_iff_right (hother (by decide)),
        or_iff_right (hother (by decide)), or_iff_left]
      rintro (h | h)
      · exact hunknown h
      · exact hword (fun word hword => (oneWordCmds_ne word hword).2.2.1) h
    obtain ⟨hcomp, hport, hcls, -, hinj⟩ := oneWordCmds_ne word hmem
    rw [hcmd, wrong_parseTokens_word hmem, or_iff_right (hother hcomp),
      or_iff_right (hother hport), or_iff_right (hother hcls), or_iff_right hunknown]
    refine and_congr_right fun _ => ⟨fun h => ⟨word, hmem, rfl, h⟩, ?_⟩
    rintro ⟨word', hmem', heq, h⟩
    rwa [hinj word' hmem' heq]

/-- **What the parser makes of a request** is a fault or not meant exactly if the string
is too long for the buffer it is split in, or its tokens are misread. -/
theorem wrong_parseWkCmd (hfit : NamesFit P m) (doc : CmdAttrs → Prop) (req : CString) :
    Wrong doc (parseWkCmd P m req) ↔ sppwkMaxParams * sppwkValBufsz ≤ req.length ∨
      Misread P m doc (CString.tokens ' ' req) := by
  have hmax : sppwkMaxParams = 8 := rfl
  unfold parseWkCmd
  split
  · rename_i hlong
    exact iff_of_true trivial (.inl hlong)
  rename_i hfits
  rw [or_iff_right hfits]
  cases htoks : CString.tokens ' ' req with
  | nil => exact iff_of_true trivial trivial
  | cons cmd args =>
    rw [List.length_cons]
    split
    · rename_i hmany
      refine iff_of_false id fun h => ?_
      have hfew := h.1
      omega
    · rename_i hfew
      exact wrong_parseTokens hfit cmd (by omega)

end SoftPatchPanel.Worker
