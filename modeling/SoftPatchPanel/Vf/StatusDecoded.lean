import SoftPatchPanel.Vf.Answered

/-!
# The status reply decodes to the state

`append_json_str_value` puts a text between two quotation marks as it is.  The texts that
the status report is made of are fixed words, numbers and addresses, with one exception:
the names of the components, which come from requests and may hold any character that is
not a blank.  As long as the names hold neither quotation marks nor backslashes nor
control characters, the reply to `status` decodes to `statusJson`, which says what the
report is about in the terms of the state.

Two things more are needed.  The status report is read off the tables of the workers, so
it shows the ports of a component only when the last flush got as far as those tables:
the drivers have to create the devices that a flush asks them for.  And a report has to be
possible at all, which is what `ReplyGuard` is for.
-/

namespace SoftPatchPanel.Vf

open Transition Worker Shared

variable {P : Platform} {m m' : MngData} {s : State}

/-! ## Requests -/

/-- The drivers create every device that they are asked for. -/
def Created (E : PmdEnv) : Prop := ∀ n, 0 ≤ E.addVhostPmd n ∧ 0 ≤ E.addRingPmd n

/-- The requests after which the status report is legible: besides `ReplyGuard`, the
drivers create the devices that the request needs, and a component that is started has a
name that needs no escape. -/
structure DecodeGuard (P : Platform) (s : State) (e : Request) : Prop where
  reply : ReplyGuard P s e
  created : Created e.env.pmd
  plain : ∀ c, parseWkCmd P s.mng e.str = .ok (.ok (.worker c)) → c.wkAction = .start →
    Json.Plain c.name

theorem initAddedPorts_ok (place : ℕ → PortRef) {add : ℕ → ℤ} (hadd : ∀ n, 0 ≤ add n)
    (l : List ℕ) (iface : PortRef → PortInfo) : (initAddedPorts place add l iface).1 = .ok := by
  induction l generalizing iface with
  | nil => rfl
  | cons cnt rest ih =>
    rw [initAddedPorts]
    split
    · rw [if_neg (Int.not_lt.mpr (hadd _))]
      exact ih _
    · exact ih _

/-- A flush gets past the ports when the drivers create the devices. -/
theorem Created.updatePortInfo_ok {E : PmdEnv} (h : Created E) (m : MngData) :
    (updatePortInfo P E m).1 = .ok := by
  have hv := initAddedPorts_ok PortRef.vhost (fun n => (h n).1)
    (List.range P.maxEthports) m.iface
  unfold updatePortInfo
  split
  · rename_i iface heq
    rw [heq] at hv
    cases hv
  · rename_i iface heq
    exact initAddedPorts_ok _ (fun n => (h n).2) _ iface

/-! ## Names -/

/-- The names of the components need no escape. -/
def PlainNames (m : MngData) : Prop :=
  ∀ id, (m.comp id).wkType ≠ .none → Json.Plain (m.comp id).name

theorem PlainNames.change {cmd : CmdAttrs} (h : PlainNames m) (hc : Change P m cmd m')
    (hstart : ∀ c, cmd = .worker c → c.wkAction = .start → Json.Plain c.name) :
    PlainNames m' := by
  intro id hlive
  cases hc.slot id with
  | kept hcomp =>
    rw [hcomp] at hlive ⊢
    exact h id hlive
  | @started c hcmd hact _ hcomp =>
    rw [hcomp]
    exact hstart c hcmd hact
  | stopped _ _ _ hzero =>
    rw [hzero] at hlive
    exact absurd rfl hlive
  | edited _ hname htype =>
    rw [hname]
    exact h id (htype ▸ hlive)

/-- The names are plain, and no component waits for a flush. -/
def Readable (s : State) : Prop :=
  PlainNames s.mng ∧ s.mng.changeComp = fun _ => false

theorem Readable.legible (h : Readable s) : Legible P s :=
  fun id _ hlive => ⟨h.1 id hlive, congrFun h.2 id⟩

theorem Readable.step {s' : State} {e : Request} (h : Readable s) (hG : DecodeGuard P s e)
    (hstep : handleRequest P s e = some s') : Readable s' := by
  rcases handleRequest_cases hstep with rfl | ⟨cmd, m₁, ret, hparse, -, hc, hflush⟩
  · exact h
  have heff : FlushEffect P e.env.pmd m₁ s'.mng := flushCmd_effect hflush
  have hnames := h.1.change hc fun c hcmd => hG.plain c (hcmd ▸ hparse)
  refine ⟨fun id => ?_, ?_⟩
  · rw [heff.comp]
    exact hnames id
  rcases heff.rest with ⟨hng, -⟩ | ⟨-, -, -, hmarks⟩
  · rw [hG.created.updatePortInfo_ok] at hng
    cases hng
  · exact hmarks

theorem readable_of_run {h : List (State × Request)}
    (hrun : Run (workerSystem P) h s) (hG : Guarded (DecodeGuard P) h) : Readable s := by
  refine hrun.invariant (I := Readable) ?_ ?_ hG
  · rintro _ rfl
    exact ⟨fun id hlive => absurd rfl hlive, rfl⟩
  · intro s e s' hs hg hstep
    exact hs.step hg hstep

/-! ## The reply -/

/-- **What the reply to `status` stands for.** -/
def statusJson (P : Platform) (clientId : ℤ) (s : State) : Json :=
  .obj [("results", .arr [.obj [("result", .str "success")]]),
    ("info", infoJson P clientId s)]

theorem members_results_success :
    ∃ tmp, appendCommandResultsValue "results" [] (setCmdResult .success []) =
        .ok (some tmp) ∧
      Members tmp [("results", .arr [.obj [("result", .str "success")]])] := by
  have hresult : Members (appendJsonStrValue [] "result" "success")
      [("result", .str "success")] :=
    members_nil.str (by decide) (by decide)
  refine ⟨_, rfl, members_nil.array (by decide) (elements_nil.block hresult)⟩

/-- The lcores and components of the report, in its order. -/
def shownComponents (P : Platform) (s : State) : List (ℕ × ℕ) :=
  (slaves P).flatMap fun l => (s.mng.core l).ref.ids.map fun id => (l, id)

/-- Each component is shown once, with the lcore it runs on. -/
theorem Reportable.shownComponents_spec (h : Reportable P s) :
    (shownComponents P s).Nodup ∧ ∀ l id, (l, id) ∈ shownComponents P s ↔
      id < P.maxLcore ∧ (s.mng.comp id).wkType ≠ .none ∧ l = (s.mng.comp id).lcoreId := by
  have hmem (l id : ℕ) : id ∈ (s.mng.core l).ref.ids ↔ LivesOn P s.mng l id :=
    (h.placed.counted l (s.mng.core l).refIndex).mem_iff
  constructor
  · refine List.nodup_flatMap.mpr ⟨fun l _ => ?_, ?_⟩
    · exact (h.placed.counted l (s.mng.core l).refIndex).nodup.map fun _ _ heq =>
        (Prod.mk.inj heq).2
    refine (List.nodup_range.filter _).imp fun {l l'} hne x hx hx' => ?_
    obtain ⟨id, -, rfl⟩ := List.mem_map.mp hx
    obtain ⟨id', -, heq⟩ := List.mem_map.mp hx'
    exact hne (Prod.mk.inj heq).1.symm
  intro l id
  constructor
  · intro hin
    obtain ⟨l', -, hin⟩ := List.mem_flatMap.mp hin
    obtain ⟨id', hid, heq⟩ := List.mem_map.mp hin
    obtain ⟨rfl, rfl⟩ := Prod.mk.inj heq
    obtain ⟨hlt, hlive, hlcore⟩ := (hmem l' id').mp hid
    exact ⟨hlt, hlive, hlcore.symm⟩
  · rintro ⟨hlt, hlive, rfl⟩
    have hslave := (h.answers.listed id hlt (h.answers.typed id hlt hlive)).2.1
    refine List.mem_flatMap.mpr ⟨(s.mng.comp id).lcoreId, ?_, ?_⟩
    · exact List.mem_filter.mpr ⟨List.mem_range.mpr (h.placed.lcore_lt id hlt hlive), hslave⟩
    · exact List.mem_map.mpr ⟨id, (hmem _ id).mpr ⟨hlt, hlive, rfl⟩, rfl⟩

/-- The reply to `status` in a state in which a report can be made. -/
theorem Reportable.status_reply (hhost : HostFits P) (clientId : ℤ)
    (h : Reportable P s) (hread : Readable s) :
    ∃ text, sendResultSppCtl P clientId s .status (setCmdResult .success []) = .ok [text] ∧
      Json.decode text = some (statusJson P clientId s) := by
  obtain ⟨tmp, htmp, hresults⟩ := members_results_success
  obtain ⟨tmp', htmp', hinfo⟩ := appendInfoValue_eq hhost clientId h tmp
  have hmembers := hinfo hread.legible _ hresults
  refine ⟨appendJsonBlockBrackets [] [] tmp', ?_, ?_⟩
  · unfold sendResultSppCtl
    rw [htmp]
    show (appendAnswer P clientId s .status tmp >>= _) = _
    have hanswer : appendAnswer P clientId s .status tmp = .ok (some tmp') := htmp'
    rw [hanswer]
    rfl
  · exact Json.decode_of_reads hmembers.reads

/-- **The status reply decodes to the state**, in every run of `spp_vf` whose requests meet
the guard: the one message that answers `status` is a JSON text for `statusJson`, in which
every component stands exactly once. -/
theorem decode_status_of_run (P : Platform) (hvf : P.module = .vf) (hP : P.FitsInt)
    (hhost : HostFits P) (clientId : ℤ) {h : List (State × Request)} {s : State}
    (hrun : Run (workerSystem P) h s) (hG : Guarded (DecodeGuard P) h) (e : Request)
    (he : e.str = "status") :
    (∃ text, sppwkRunCmd P clientId s (.message e) = .ok ⟨.ok, [text], s⟩ ∧
      Json.decode text = some (statusJson P clientId s)) ∧
    (shownComponents P s).Nodup ∧ ∀ l id, (l, id) ∈ shownComponents P s ↔
      id < P.maxLcore ∧ (s.mng.comp id).wkType ≠ .none ∧ l = (s.mng.comp id).lcoreId := by
  obtain ⟨hs, -⟩ := reportable_of_run hvf hP hhost hrun fun p hp => (hG p hp).reply
  obtain ⟨text, hsent, hdecode⟩ := hs.status_reply hhost clientId (readable_of_run hrun hG)
  refine ⟨⟨text, ?_, hdecode⟩, hs.shownComponents_spec⟩
  have hexec : execOneCmd P e.env s .status = .ok (.ok, s) := by
    rw [execOneCmd, hvf]
    rfl
  have hparse : parseWkCmd P s.mng e.str = .ok (.ok .status) := by
    rw [he]
    exact parseWkCmd_of_documented hP (by decide)
      (by decide : CString.tokens ' ' "status" = ["status"])
  exact bind_eq_ok.mpr ⟨_, hparse, bind_eq_ok.mpr ⟨_, hexec, bind_eq_ok.mpr ⟨_, hsent, rfl⟩⟩⟩

/-! ### A classifier with a tagging port and an entry -/

/-- A documented request meets the guard. -/
theorem decodeGuard_of_documented {e : Request} {cmd : CmdAttrs}
    (henv : e.env = (steadyRequest "").env) (hfit : NamesFit (.sample .vf) s.mng)
    (harrays : ArraysFit (.sample .vf) s) (hlen : e.str.length < sppwkMaxParams * sppwkValBufsz)
    (hdoc : Documented (.sample .vf) s.mng (CString.tokens ' ' e.str) cmd)
    (hcomp : ∀ c, cmd = .worker c → c.core ≠ (Platform.sample .vf).master ∧ Json.Plain c.name) :
    DecodeGuard (.sample .vf) s e := by
  have hcreated : Created e.env.pmd := by
    rw [henv]
    exact fun n => ⟨(by decide : (0 : ℤ) ≤ 8), (by decide : (0 : ℤ) ≤ 16)⟩
  have hcmd (c : CmdComp) (hc : parseWkCmd (.sample .vf) s.mng e.str = .ok (.ok (.worker c))) :
      cmd = .worker c :=
    Except.ok.inj (Except.ok.inj
      ((parseWkCmd_of_documented sample_fitsInt hlen hdoc).symm.trans hc))
  obtain ⟨hpmd, hhash⟩ := steadyRequest_ok ""
  rw [← henv] at hpmd hhash
  exact ⟨⟨not_mishandled_of_documented sample_fitsInt hfit hlen hdoc, hpmd, hhash, harrays,
      fun c _ => hcreated.updatePortInfo_ok _,
      fun c hc _ hcore => absurd hcore (hcomp c (hcmd c hc)).1, fun _ _ _ _ => by rw [henv]; rfl⟩,
    hcreated, fun c hc _ => (hcomp c (hcmd c hc)).2⟩

/-- What the requests for the classifier need to be documented. -/
def Documentable (m : MngData) (str : CString) : Prop :=
  (str = "component start c 2 classifier" ∧ sppwkGetLcoreId (.sample .vf) m "c" = none) ∨
    (str = "port add phy:0 rx c add_vlantag 10 3" ∧
      (sppwkGetLcoreId (.sample .vf) m "c").isSome) ∨
    (str = "port add ring:0 tx c" ∧ (sppwkGetLcoreId (.sample .vf) m "c").isSome ∧
      sppwkCheckUsedPort (.sample .vf) m .ring 0 0 .tx = .ok none) ∨
    (str = "classifier_table add vlan 100 02:00:00:00:00:01 ring:0" ∧
      isAddedPort m (.ring 0) = true ∧ isUsedWithAddr m ethVlanIdMax 0#64 (.ring 0) = true)

instance (m : MngData) (str : CString) : Decidable (Documentable m str) :=
  inferInstanceAs (Decidable (_ ∨ _))

theorem Documentable.documented {str : CString} (h : Documentable m str) :
    str.length < sppwkMaxParams * sppwkValBufsz ∧
      ∃ cmd, Documented (.sample .vf) m (CString.tokens ' ' str) cmd ∧
        ∀ c, cmd = .worker c → c.core ≠ (Platform.sample .vf).master ∧ Json.Plain c.name := by
  have hphy : NamesPort (.sample .vf) "phy:0" ⟨.phy, 0, 0⟩ := ⟨false, by decide +kernel⟩
  have hring : NamesPort (.sample .vf) "ring:0" ⟨.ring, 0, 0⟩ := ⟨false, by decide +kernel⟩
  rcases h with ⟨rfl, hnone⟩ | ⟨rfl, hsome⟩ | ⟨rfl, hsome, hfree⟩ | ⟨rfl, hadded, hused⟩
  · refine ⟨by decide, .worker ⟨.start, "c", 2, .cls⟩, ⟨["start", "c", "2", "classifier"],
      by decide, by decide, .inl ⟨"2", "classifier", rfl, rfl, hnone, by decide, by decide, rfl,
        by decide⟩⟩, fun c hc => ?_⟩
    cases hc
    exact ⟨by decide, by decide⟩
  · exact ⟨by decide, .port ⟨.add, ⟨.phy, 0, 0⟩, .rx, "c", ⟨.addVlan, .rx, ⟨10, 3, 0⟩⟩⟩,
      ⟨["add", "phy:0", "rx", "c", "add_vlantag", "10", "3"], by decide, "add", "phy:0", "rx",
        ["add_vlantag", "10", "3"], rfl, by decide, hphy, by decide,
        fun _ => ⟨fun _ => (by decide : (0 : ℤ) ≤ maxPortQueue (.sample .vf) ⟨.phy, 0, 0⟩ .rx),
          fun hne => absurd rfl hne⟩, hsome, by decide,
        ⟨rfl, 10, 3, rfl, by decide, by decide, by decide, by decide⟩, nofun⟩, nofun⟩
  · exact ⟨by decide, .port ⟨.add, ⟨.ring, 0, 0⟩, .tx, "c", .zero⟩,
      ⟨["add", "ring:0", "tx", "c"], by decide, "add", "ring:0", "tx", [], rfl, by decide, hring,
        by decide, fun _ => ⟨nofun, fun _ ⟨id, hid⟩ => by cases hfree.symm.trans hid⟩, hsome,
        by decide, rfl, nofun⟩, nofun⟩
  · exact ⟨by decide, .clsVlan ⟨.add, .vlan, 100, "02:00:00:00:00:01", ⟨.ring, 0, 0⟩⟩,
      ⟨["add", "vlan", "100", "02:00:00:00:00:01", "ring:0"], by decide, "add", "100",
        "02:00:00:00:00:01", "ring:0", rfl, rfl, by decide, by decide,
        .inr ⟨by decide, rfl⟩, by decide, hring, .ring 0, by decide, hadded,
        congrArg Except.ok hused⟩, nofun⟩

/-- The test of a request for the classifier. -/
def documentable (s : State) (e : Request) : Bool :=
  NamesFit (.sample .vf) s.mng ∧ ArraysFit (.sample .vf) s ∧ Documentable s.mng e.str

theorem decodeGuard_of_documentable {e : Request} (h : documentable s e = true)
    (henv : e.env = (steadyRequest "").env) : DecodeGuard (.sample .vf) s e := by
  obtain ⟨hfit, harrays, hreq⟩ := of_decide_eq_true h
  obtain ⟨hlen, cmd, hdoc, hcomp⟩ := hreq.documented
  exact decodeGuard_of_documented henv hfit harrays hlen hdoc hcomp

/-- A classifier with a port that tags its frames and with an entry for another port: the status
is asked for. -/
theorem decode_status_of_run_classifier : ∃ h s, Run (workerSystem (.sample .vf)) h s ∧
    h.map Prod.snd = [steadyRequest "classifier_table add vlan 100 02:00:00:00:00:01 ring:0",
      steadyRequest "port add ring:0 tx c", steadyRequest "port add phy:0 rx c add_vlantag 10 3",
      steadyRequest "component start c 2 classifier"] ∧
    ((s.mng.iface (.phy 0 0)).portAttrs 0).ops = .addVlan ∧
    (addClassifierTable (.sample .vf) s.cls).length = 1 ∧
    (∃ text, sppwkRunCmd (.sample .vf) 1 s (.message (steadyRequest "status")) =
        .ok ⟨.ok, [text], s⟩ ∧
      Json.decode text = some (statusJson (.sample .vf) 1 s)) ∧
    (2, 0) ∈ shownComponents (.sample .vf) s := by
  obtain ⟨h, s, hrun, hmap, hG, hops, hentry, hlive, hlcore⟩ := exists_guarded_run
    documentable decodeGuard_of_documentable
    (startUp (.sample .vf)) (handleRequest (.sample .vf))
    [steadyRequest "component start c 2 classifier",
      steadyRequest "port add phy:0 rx c add_vlantag 10 3", steadyRequest "port add ring:0 tx c",
      steadyRequest "classifier_table add vlan 100 02:00:00:00:00:01 ring:0"]
    (fun s => ((s.mng.iface (.phy 0 0)).portAttrs 0).ops = .addVlan ∧
      (addClassifierTable (.sample .vf) s.cls).length = 1 ∧ (s.mng.comp 0).wkType ≠ .none ∧
      (s.mng.comp 0).lcoreId = 2)
    (by decide +kernel)
  have henv : ∀ e ∈ h.map Prod.snd, e.env = (steadyRequest "").env := by
    rw [hmap]
    simp [steadyRequest]
  obtain ⟨htext, -, hshown⟩ := decode_status_of_run (.sample .vf) rfl sample_fitsInt
    hostFits_sample 1 hrun (fun x hx => hG x hx (henv _ (List.mem_map_of_mem hx)))
    (steadyRequest "status") rfl
  exact ⟨h, s, hrun, hmap, hops, hentry, htext,
    (hshown 2 0).mpr ⟨by decide, hlive, hlcore.symm⟩⟩

/-- The reply to `status` is one text, and it cannot be decoded. -/
def statusUnreadable (s : State) : Bool :=
  match sppwkRunCmd (.sample .vf) 1 s (.message (.plain "status")) with
  | .ok ⟨_, [text], _⟩ => (Json.decode text).isNone
  | _ => false

/-- **A reply that is no JSON text.**  A component may be given a name with a quotation
mark; the reply to `status` then cannot be decoded. -/
theorem not_decode_status_of_quote :
    ∃ h s r text, Run (workerSystem (.sample .vf)) h s ∧
      h.map Prod.snd = [.plain "component start a\"b 2 forward"] ∧
      sppwkRunCmd (.sample .vf) 1 s (.message (.plain "status")) = .ok r ∧ r.sent = [text] ∧
      Json.decode text = none := by
  obtain ⟨h, s, hrun, hmap, hs⟩ := exists_run_of_requests (.sample .vf)
    [.plain "component start a\"b 2 forward"] (fun s => statusUnreadable s)
    (by decide +kernel)
  unfold statusUnreadable at hs
  split at hs
  · rename_i ret text s' hr
    exact ⟨h, s, _, text, hrun, hmap, hr, rfl, Option.isNone_iff_eq_none.mp hs⟩
  · cases hs

end SoftPatchPanel.Vf
