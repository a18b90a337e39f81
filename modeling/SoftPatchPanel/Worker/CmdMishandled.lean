import SoftPatchPanel.Worker.CmdMisread

/-!
# The requests that the parser mishandles

The parser accepts requests that are not in the documented language, because the
number of tokens is only tested against a range, because tokens that a form has no use
for are skipped, and because numbers and addresses are read more generously than they
are written.  And it runs out of its buffers: a token that is refused is copied into a
message of `SPPWK_VAL_BUFSZ` characters, and a name that is longer than
`SPPWK_NAME_BUFSZ` is tested against the larger of the two sizes before it is copied.

`Mishandled` lists these requests, token by token.  They are the ones that are misread if
the meaning of a request is the documented one (`misread_documented_iff`): behind every
token the documentation leaves only a few conditions to be met.
-/

namespace SoftPatchPanel.Worker

variable {P : Platform} {m : MngData} {name : CString} {rest : List CString} {dir : PortDir}
  {doc : PortAttrs → Prop} {good : Prop}

/-! ## The requests that are mishandled -/

/-- Behind the name in a `component start`: the lcore and the type may be missing, and
the number of the lcore may be too big by a multiple of 2³². -/
def StartMishandled (P : Platform) : List CString → Prop
  | [] => True
  | [core] => ReadWrong core (.ok (getUintInRange core 0 (P.maxLcore - 1))) fun _ => True
  | core :: type :: _ =>
    ReadWrong core (.ok (getUintInRange core 0 (P.maxLcore - 1))) fun l =>
      (getCompTypeFromStr P.module type = .none ∧ TooLong type) ∨
        (getCompTypeFromStr P.module type ≠ .none ∧ CString.value 0 core ≠ some ((l : ℤ), []))

/-- A `component` request: its name may be too long for the field, and a stop may be
followed by tokens that are not looked at. -/
def CompMishandled (P : Platform) (m : MngData) : List CString → Prop
  | act :: name :: rest => rest.length ≤ 2 ∧
    ReadWrong act (.ok (getListIdx act compActions)) fun action =>
      sppwkNameBufsz ≤ name.length ∨
        (action = .start ∧ sppwkGetLcoreId P m name = none ∧ StartMishandled P rest) ∨
        (action = .stop ∧ rest ≠ [])
  | _ => False

/-- Behind `add_vlantag`: its two numbers may be missing or too big by a multiple of
2³². -/
def AddTagMishandled (doc : Prop) : List CString → Prop
  | [] => True
  | [vid] => ReadWrong vid (.ok (getIntInRange vid 0 ethVlanIdMax)) fun _ => True
  | vid :: pcp :: _ =>
    ReadWrong vid (.ok (getIntInRange vid 0 ethVlanIdMax)) fun v =>
      ReadWrong pcp (.ok (getIntInRange pcp 0 sppVlanPcpMax)) fun k =>
        ¬ (doc ∧ CString.value 0 vid = some (v, []) ∧ CString.value 0 pcp = some (k, []))

/-- Behind the component in a `port` request, the rest of which is documented or not:
`del_vlantag` may be followed by tokens that are not looked at. -/
def TagMishandled (doc : Prop) : List CString → Prop
  | [] => ¬ doc
  | ops :: args => ReadWrong ops (.ok (getListIdx ops tagOps)) fun o =>
      (o = .addVlan ∧ AddTagMishandled doc args) ∨ (o = .delVlan ∧ ¬ (doc ∧ args = []))

/-- A `port` request.  Before a port is added, unless the request has the maximal
length, it is looked up in a table that it may not be in.  A port that is accepted may
not exist, and a port may be deleted with a tag. -/
def PortMishandled (P : Platform) (m : MngData) : List CString → Prop
  | act :: uid :: dir :: name :: tail => tail.length ≤ 3 ∧
    ReadWrong act (.ok (getListIdx act portActions)) fun action =>
      ReadWrong uid (uidOutcome P uid) fun idx =>
        (action = .add ∧ tail.length ≠ 3 ∧ ¬ idx.InIfaceTable P) ∨
        (action = .add ∧ tail.length ≠ 3 ∧ (InUse P m idx .rx ∧ InUse P m idx .tx) ∧
          TooLong uid) ∨
        ((action = .add → tail.length ≠ 3 →
            idx.InIfaceTable P ∧ ¬ (InUse P m idx .rx ∧ InUse P m idx .tx)) ∧
          ReadWrong dir (.ok (getListIdx dir portDirs)) fun d =>
            (action = .add → idx.FitsDir P d ∧ (tail.length ≠ 3 → ¬ InUse P m idx d)) ∧
            ((sppwkGetLcoreId P m name = none ∧ TooLong name) ∨
              ((sppwkGetLcoreId P m name).isSome ∧
                TagMishandled (NamesPort P uid idx ∧ (action = .del → tail = [])) tail)))
  | _ => False

/-- A `classifier_table` request: the type may be the one of the other form, the VLAN id
may be too big by a multiple of 2³², the address may not be one, and the port may not
exist. -/
def ClsMishandled (P : Platform) (m : MngData) : List CString → Prop
  | [act, type, mac, uid] =>
    ReadWrong act (.ok (getListIdx act portActions)) fun action =>
      ReadWrong type (.ok (getListIdx type clsTypes)) fun t =>
        MacMishandled mac <|
          EntryMishandled P m ⟨action, t, if t = .mac then ethVlanIdMax else 0, macText mac, .zero⟩
            uid fun idx => t = .mac ∧ MacOf mac (macText mac) ∧ NamesPort P uid idx
  | [act, type, vid, mac, uid] =>
    ReadWrong act (.ok (getListIdx act portActions)) fun action =>
      ReadWrong type (.ok (getListIdx type clsTypes)) fun t =>
        ReadWrong vid (.ok (getIntInRange vid 0 ethVlanIdMax)) fun v =>
          MacMishandled mac <|
            EntryMishandled P m
              ⟨action, t, if t = .mac then ethVlanIdMax else v, macText mac, .zero⟩
              uid fun idx => t = .vlan ∧ CString.value 0 vid = some (v, []) ∧
                MacOf mac (macText mac) ∧ NamesPort P uid idx
  | _ => False

/-- **The requests that are mishandled**: the string is too long for the buffer it is
split in, there is no token at all, an unknown command does not fit the message that
reports it, or a token of a known command goes wrong. -/
def Mishandled (P : Platform) (m : MngData) (req : CString) : Prop :=
  sppwkMaxParams * sppwkValBufsz ≤ req.length ∨
    match CString.tokens ' ' req with
    | [] => True
    | cmd :: args => args.length < sppwkMaxParams ∧
      ((cmd = "component" ∧ CompMishandled P m args) ∨
        (cmd = "port" ∧ PortMishandled P m args) ∨
        (cmd = "classifier_table" ∧ ClsMishandled P m args) ∨
        (cmdAttrList.any (·.cmdName = cmd) = false ∧ TooLong cmd))

/-! ## `component` -/

/-- The tokens behind the name of a component that is to be started. -/
theorem startMisread_iff (hlen : rest.length ≤ 2)
    (hname : name.length < sppwkNameBufsz) (hnew : sppwkGetLcoreId P m name = none) :
    StartMisread P (fun l type =>
        DocumentedComp P m ("start" :: name :: rest) ⟨.start, name, l, type⟩) rest ↔
      StartMishandled P rest := by
  have hpos := P.master_lt
  match rest, hlen with
  | [], _ => exact iff_of_true (by simp [StartMisread, DocumentedComp]) trivial
  | [core], _ =>
    exact readWrong_congr fun l _ => iff_of_true (by simp [DocumentedComp]) trivial
  | [core, type], _ =>
    refine readWrong_congr fun l hl => ?_
    have hle := getUintInRange_le (Except.ok.inj hl)
    have hlt : l < P.maxLcore := by omega
    refine or_congr_right (and_congr_right fun htype => ?_)
    rw [not_iff_not]
    constructor
    · rintro ⟨-, ⟨core', type', hargs, -, -, hval, -⟩ | ⟨hargs, -⟩⟩
      · cases hargs
        exact hval
      · cases hargs
    · intro hval
      exact ⟨hname, .inl ⟨core, type, rfl, rfl, hnew, hval, hlt, rfl, htype⟩⟩

/-- A stop is documented without anything behind the name. -/
theorem documentedComp_stop_iff (hname : name.length < sppwkNameBufsz) :
    DocumentedComp P m ("stop" :: name :: rest) ⟨.stop, name, 0, .none⟩ ↔ rest = [] := by
  constructor
  · rintro ⟨-, ⟨core, type, hargs, hact, -⟩ | ⟨hargs, -⟩⟩
    · cases hact
    · exact (List.cons.inj (List.cons.inj hargs).2).2
  · rintro rfl
    exact ⟨hname, .inr ⟨rfl, rfl, rfl, rfl⟩⟩

theorem compMisread_iff (args : List CString) :
    CompMisread P m (DocumentedComp P m args) args ↔ CompMishandled P m args := by
  match args with
  | [] | [_] => rfl
  | act :: name :: rest =>
    refine and_congr_right fun hlen => readWrong_congr fun action haction => ?_
    refine or_congr_right' fun hshort => ?_
    rw [Nat.not_le] at hshort
    rcases mem_compActions (Except.ok.inj haction) with ⟨rfl, rfl⟩ | ⟨rfl, rfl⟩
    · refine or_congr (and_congr_right fun _ => and_congr_right fun hnew => ?_) (by simp)
      exact startMisread_iff hlen hshort hnew
    · refine or_congr (by simp) (and_congr_right fun _ => ?_)
      exact not_congr (documentedComp_stop_iff hshort)

/-! ## `port` -/

/-- The numbers behind `add_vlantag`. -/
theorem addTagMisread_iff {args : List CString} (hlen : args.length ≤ 2)
    (hdoc : ∀ attrs, doc attrs ↔ good ∧ DocumentedTag dir attrs ("add_vlantag" :: args)) :
    AddTagMisread dir doc args ↔ AddTagMishandled good args := by
  match args, hlen with
  | [], _ =>
    refine iff_of_true (fun h => ?_) trivial
    exact absurd ((hdoc _).mp h).2.1 (by decide)
  | [vid], _ =>
    exact readWrong_congr fun v _ => iff_of_true (fun h => ((hdoc _).mp h).2) trivial
  | [vid, pcp], _ =>
    refine readWrong_congr fun v hv => readWrong_congr fun k hk => ?_
    have hvid := getIntInRange_mem (Except.ok.inj hv)
    have hpcp := getIntInRange_mem (Except.ok.inj hk)
    rw [not_iff_not]
    refine Iff.trans (hdoc _) (and_congr_right fun _ => ?_)
    constructor
    · rintro ⟨-, v', k', heq, hv', -, hk', -⟩
      cases heq
      exact ⟨hv', hk'⟩
    · rintro ⟨hv', hk'⟩
      exact ⟨rfl, v, k, rfl, hv', hvid, hk', hpcp⟩

/-- The tokens behind the component in a `port` request. -/
theorem tagMisread_iff {tail : List CString} (hlen : tail.length ≤ 3)
    (hdoc : ∀ attrs, doc attrs ↔ good ∧ DocumentedTag dir attrs tail) :
    TagMisread dir doc tail ↔ TagMishandled good tail := by
  cases tail with
  | nil => exact not_congr (Iff.trans (hdoc _) (and_iff_left rfl))
  | cons ops args =>
    rw [List.length_cons] at hlen
    refine readWrong_congr fun o ho => ?_
    rcases mem_tagOps (Except.ok.inj ho) with ⟨rfl, rfl⟩ | ⟨rfl, rfl⟩
    · exact or_congr (and_congr_right fun _ => addTagMisread_iff (by omega) hdoc) (by simp)
    refine or_congr (by simp) (and_congr_right fun _ => ?_)
    refine not_congr (Iff.trans (hdoc _) (and_congr_right fun _ => ?_))
    match args with
    | [] => exact iff_of_true ⟨rfl, rfl⟩ rfl
    | [_] => exact iff_of_false id (by simp)
    | [_, _] => exact iff_of_false (fun h => absurd h.1 (by decide)) (by simp)
    | _ :: _ :: _ :: _ => exact iff_of_false id (by simp)

/-- **`port`.** -/
theorem portMisread_iff (hfit : NamesFit P m) (args : List CString) :
    PortMisread P m (DocumentedPort P m args) args ↔ PortMishandled P m args := by
  match args with
  | [] | [_] | [_, _] | [_, _, _] => rfl
  | act :: uid :: dir :: name :: tail =>
    refine and_congr_right fun hlen => readWrong_congr fun action haction => ?_
    refine readWrong_congr fun idx _ => or_congr_right (or_congr_right (and_congr_right
      fun _ => ?_))
    refine readWrong_congr fun d hd => and_congr_right fun hdir => ?_
    refine or_congr_right (and_congr_right fun hname => ?_)
    refine tagMisread_iff hlen fun attrs => ?_
    constructor
    · rintro ⟨act', uid', dir', tail', hargs, -, hport, -, -, -, -, htag, hdel⟩
      cases hargs
      exact ⟨⟨hport, hdel⟩, htag⟩
    · rintro ⟨⟨hport, hdel⟩, htag⟩
      exact ⟨act, uid, dir, tail, rfl, mem_of_getListIdx (Except.ok.inj haction), hport,
        mem_of_getListIdx (Except.ok.inj hd), hdir, hname, hfit.length_lt hname, htag, hdel⟩

/-! ## `classifier_table` -/

theorem entryMishandled_congr {a : ClsCmdAttrs} {uid : CString} {doc doc' : PortIdx → Prop}
    (h : ∀ idx r, getSppwkPort P idx.ifaceType idx.ifaceNo idx.queueNo = .ok (some r) →
      isAddedPort m r = true → checkClsPort m a r = .ok true → (doc idx ↔ doc' idx)) :
    EntryMishandled P m a uid doc ↔ EntryMishandled P m a uid doc' := by
  refine readWrong_congr fun idx _ => or_congr_right (exists_congr fun r =>
    and_congr_right fun hr => or_congr_left ?_)
  exact and_congr_right fun hadd => and_congr_right fun hcheck => not_congr (h idx r hr hadd hcheck)

theorem macMishandled_congr {tok : CString} {next next' : Prop} (h : next ↔ next') :
    MacMishandled tok next ↔ MacMishandled tok next' := by
  rw [h]

theorem mem_clsTypes {type : CString} {t : ClsType} (h : getListIdx type clsTypes = some t) :
    (type = "mac" ∧ t = .mac) ∨ (type = "vlan" ∧ t = .vlan) := by
  simpa [clsTypes] using mem_of_getListIdx h

/-- **`classifier_table`.** -/
theorem clsMisread_iff (args : List CString) :
    ClsMisread P m (DocumentedClsMac P m args) (DocumentedClsVlan P m args) args ↔
      ClsMishandled P m args := by
  match args with
  | [] | [_] | [_, _] | [_, _, _] | _ :: _ :: _ :: _ :: _ :: _ :: _ => rfl
  | [act, type, mac, uid] =>
    refine readWrong_congr fun action haction => readWrong_congr fun t ht =>
      macMishandled_congr (entryMishandled_congr fun idx r hr hadd hcheck => ?_)
    constructor
    · rintro ⟨act', mac', uid', hargs, htype, -, hmacof, -, hport, -⟩
      cases hargs
      exact ⟨htype, hmacof, hport⟩
    rintro ⟨rfl, hmacof, hport⟩
    rcases mem_clsTypes (Except.ok.inj ht) with ⟨rfl, -⟩ | ⟨-, htype⟩
    · exact ⟨act, mac, uid, rfl, rfl, rfl, hmacof, mem_of_getListIdx (Except.ok.inj haction),
        hport, r, hr, hadd, hcheck⟩
    · cases htype
  | [act, type, vid, mac, uid] =>
    refine readWrong_congr fun action haction => readWrong_congr fun t ht =>
      readWrong_congr fun v hv =>
        macMishandled_congr (entryMishandled_congr fun idx r hr hadd hcheck => ?_)
    have hrange := getIntInRange_mem (Except.ok.inj hv)
    constructor
    · rintro ⟨act', vid', mac', uid', hargs, htype, hval, -, hmacof, -, hport, -⟩
      cases hargs
      obtain rfl : t = .vlan := htype
      exact ⟨rfl, hval, hmacof, hport⟩
    rintro ⟨rfl, hval, hmacof, hport⟩
    rcases mem_clsTypes (Except.ok.inj ht) with ⟨-, htype⟩ | ⟨rfl, -⟩
    · cases htype
    · exact ⟨act, vid, mac, uid, rfl, rfl, hval, hrange, hmacof,
        mem_of_getListIdx (Except.ok.inj haction), hport, r, hr, hadd, hcheck⟩

/-! ## Every request -/

/-- A command of one word is documented. -/
theorem documented_oneWord : ∀ word ∈ oneWordCmds, Documented P m [word.1] word.2 := by
  intro word hword
  simp only [oneWordCmds, List.mem_cons, List.not_mem_nil, or_false] at hword
  rcases hword with rfl | rfl | rfl <;> rfl

theorem misread_documented_iff (hfit : NamesFit P m) (cmd : CString) (args : List CString) :
    Misread P m (Documented P m (cmd :: args)) (cmd :: args) ↔ args.length < sppwkMaxParams ∧
      ((cmd = "component" ∧ CompMishandled P m args) ∨
        (cmd = "port" ∧ PortMishandled P m args) ∨
        (cmd = "classifier_table" ∧ ClsMishandled P m args) ∨
        (cmdAttrList.any (·.cmdName = cmd) = false ∧ TooLong cmd)) := by
  have hargs {doc : List CString → Prop} {word : CString} :
      (∃ args', word :: args = word :: args' ∧ doc args') ↔ doc args := by simp
  refine and_congr_right fun _ => or_congr (and_congr_right ?_) (or_congr (and_congr_right ?_)
    (or_congr (and_congr_right ?_) ?_))
  · rintro rfl
    simp only [Documented, hargs]
    exact compMisread_iff args
  · rintro rfl
    simp only [Documented, hargs]
    exact portMisread_iff hfit args
  · rintro rfl
    simp only [Documented, hargs]
    exact clsMisread_iff args
  · refine or_iff_left ?_
    rintro ⟨rfl, word, hword, rfl, hnot⟩
    exact hnot (documented_oneWord word hword)

end SoftPatchPanel.Worker
