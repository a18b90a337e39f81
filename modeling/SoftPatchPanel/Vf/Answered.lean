import SoftPatchPanel.Vf.StatusText

/-!
# Every request is answered

A request to `spp_vf` that meets `ReplyGuard` is executed without a fault and answered
with exactly one message, and the process goes on unless the request is `exit`.  The
reason is `Reportable`, which these requests keep: `send_result_spp_ctl` gives up
without a message as soon as one part of the status report cannot be made.

The guard is needed.  A `component start` without a type puts the id of an empty slot
into the list of an lcore; from then on no `status` is answered any more
(`not_answered_of_short_start`).
-/

namespace SoftPatchPanel.Vf

open Transition Worker Shared

variable {P : Platform} {m m' : MngData} {cmd : CmdAttrs} {toks : List CString} {s : State}
  {e : Request}

/-! ## Requests -/

/-- There is room in the arrays that a flush writes into: `rx_list` and `tx_list` of
`sppwk_swap_two_sides`, which are never emptied, and the ports of a forwarder. -/
def ArraysFit (P : Platform) (s : State) : Prop :=
  ∀ dir, dir = .rx ∨ dir = .tx → (s.cap.pending dir).length +
    ((List.range P.maxLcore).map fun id => ((s.mng.comp id).ports dir).length).sum < P.maxEthports

instance (P : Platform) (s : State) : Decidable (ArraysFit P s) :=
  decidable_of_iff (∀ dir ∈ [PortDir.rx, .tx], (s.cap.pending dir).length +
    ((List.range P.maxLcore).map fun id => ((s.mng.comp id).ports dir).length).sum <
      P.maxEthports) (by simp [ArraysFit])

/-- The requests after which a status report can be made: the parser handles the request
as documented; the ids that the drivers give out are ids of ethdevs, and the allocator
delivers; a request for a component finds, or creates, the devices of all ports; no
component is started on the lcore of the command thread; and a classifier is started
only when its worker has changed its index. -/
structure ReplyGuard (P : Platform) (s : State) (e : Request) : Prop where
  parsed : ¬ Mishandled P s.mng e.str
  pmd : PmdOk P e.env.pmd
  hash : HashOk e.env.hash
  arrays : ArraysFit P s
  devices : ∀ c, parseWkCmd P s.mng e.str = .ok (.ok (.worker c)) →
    (updatePortInfo P e.env.pmd s.mng).1 = .ok
  master : AnswerGuard P s e
  early : ∀ c, parseWkCmd P s.mng e.str = .ok (.ok (.worker c)) → c.wkAction = .start →
    c.wkType = .cls → e.env.early = true

theorem sensible_of_documented (h : Documented P m toks cmd) : Sensible P cmd := by
  cases cmd with
  | worker c =>
    obtain ⟨args, -, -, ⟨core, type, -, -, -, -, -, -, hne⟩ | ⟨-, hact, -, -⟩⟩ := h
    · exact fun _ => hne
    · intro hstart
      rw [hact] at hstart
      cases hstart
  | port p =>
    obtain ⟨args, -, act, uid, dir, tail, -, -, ⟨multi, -, hin, hq, -⟩, -⟩ := h
    exact ⟨hin, hq⟩
  | clsMac | clsVlan | clientId | status | exit => trivial

theorem not_shortStart_of_documented {req : CString} {c : CmdComp}
    (h : Documented P m (CString.tokens ' ' req) (.worker c)) : ¬ ShortStart req := by
  rintro ⟨args', htok', hlen⟩
  obtain ⟨args, htok, -, ⟨core, type, rfl, -⟩ | ⟨rfl, -⟩⟩ := h
  · obtain ⟨-, hargs⟩ := List.cons.inj (htok.symm.trans htok')
    obtain ⟨-, rfl⟩ := List.cons.inj hargs
    exact absurd hlen (by simp)
  · obtain ⟨-, hargs⟩ := List.cons.inj (htok.symm.trans htok')
    exact absurd (List.cons.inj hargs).1 (by decide)

/-- A free slot means that no lcore runs as many components as there are slots. -/
theorem Consistent.num_lt (h : Consistent P m) {id : ℕ} (hid : getFreeLcoreId P m = some id)
    (l : ℕ) (side : Side) : ((m.core l).core side).num < P.maxLcore := by
  obtain ⟨hlt, hfree⟩ := getFreeLcoreId_eq_some P hid
  have hcount := h.counted l side
  have hnot : id ∉ ((m.core l).core side).ids := fun hin => (hcount.mem_iff.mp hin).2.1 hfree
  have hsub : id :: ((m.core l).core side).ids ⊆ List.range P.maxLcore := by
    intro i hi
    rw [List.mem_range]
    rcases List.mem_cons.mp hi with rfl | hi
    · exact hlt
    · exact (hcount.mem_iff.mp hi).1
  have hlen := ((List.nodup_cons.mpr ⟨hnot, hcount.nodup⟩).subperm hsub).length_le
  rw [List.length_cons, List.length_range, CoreInfo.ids, CountedArray.length_slice] at hlen
  have hnum := hcount.1
  omega

theorem updateClsTable_ne_error (hports : PortsOk P m) {a : ClsCmdAttrs} {tok act uid : CString}
    (hmac : MacOf tok a.mac) (hentry : DocumentedEntry P m act uid a) :
    ∃ r, updateClsTable P m a = .ok r := by
  obtain ⟨mac, hconv, -⟩ := hmac.convert
  obtain ⟨-, -, r, hplace, -⟩ := hentry
  rw [updateClsTable, hconv]
  show ∃ r, (if mac = -1#64 then Except.ok (Ret.ng, m) else _) = .ok r
  split
  · exact ⟨_, rfl⟩
  rw [hplace]
  show ∃ x, (if (m.iface r).ifaceType = .undef then Except.ok (Ret.ng, m) else _) = .ok x
  split
  · exact ⟨_, rfl⟩
  rename_i htype
  cases updateClsAttrs a mac (m.iface r).clsAttrs with
  | none => exact ⟨_, rfl⟩
  | some attrs =>
    have hok := hports.iface r
    have hfound := hok.place (hok.type.resolve_left htype) hplace
    have hflag : ∃ m', setComponentChangePort P (m.setClsAttrs r attrs) (m.iface r) .tx =
        .ok m' := by
      unfold setComponentChangePort sppwkCheckUsedPort
      simp only [hfound, bind, Except.bind, pure, Except.pure]
      split <;> exact ⟨_, rfl⟩
    obtain ⟨m', hm'⟩ := hflag
    exact ⟨(.ok, m'), bind_eq_ok.mpr ⟨m', hm', rfl⟩⟩

/-- **The first step of a documented command** stays within its arrays. -/
theorem changeMng_ne_error (hP : P.FitsInt) (hports : PortsOk P s.mng)
    (hplaced : Consistent P s.mng)
    (hdoc : Documented P s.mng toks cmd) : ∃ r, changeMng P s cmd = .ok r := by
  cases cmd with
  | clsMac a =>
    obtain ⟨args, -, act, mac, uid, -, -, -, hmac, hentry⟩ := hdoc
    obtain ⟨r, hr⟩ := updateClsTable_ne_error hports hmac hentry
    exact ⟨_, by rw [changeMng, hr]; rfl⟩
  | clsVlan a =>
    obtain ⟨args, -, act, vid, mac, uid, -, -, -, -, hmac, hentry⟩ := hdoc
    obtain ⟨r, hr⟩ := updateClsTable_ne_error hports hmac hentry
    exact ⟨_, by rw [changeMng, hr]; rfl⟩
  | worker c =>
    rw [changeMng, updateComp]
    split
    · split
      · exact ⟨_, rfl⟩
      split
      · exact ⟨_, rfl⟩
      split
      · exact ⟨_, rfl⟩
      rename_i id hid
      have hlt := Consistent.num_lt hplaced hid c.core (s.mng.core c.core).updIndex
      have hnum := (hplaced.counted c.core (s.mng.core c.core).updIndex).1
      simp only
      rw [if_neg (by omega)]
      exact ⟨_, rfl⟩
    · split <;> exact ⟨_, rfl⟩
    · exact ⟨_, rfl⟩
  | port p =>
    obtain ⟨args, -, act, uid, dir, tail, -, -, hnames, -⟩ := hdoc
    have hnamed := uidOutcome_named (hnames.uidOutcome hP)
    obtain ⟨multi, -, hin, -⟩ := hnames
    obtain ⟨r, hplace⟩ := getSppwkPort_of_inIfaceTable hnamed hin.inIfaceTable
    have hport : ∃ r, updatePort P s.mng p = .ok r := by
      unfold updatePort
      cases sppwkGetLcoreId P s.mng p.name with
      | none => exact ⟨_, rfl⟩
      | some id =>
        simp only [hplace, bind, Except.bind]
        split
        · split
          · exact ⟨_, rfl⟩
          · split <;> exact ⟨_, rfl⟩
        all_goals exact ⟨_, rfl⟩
    obtain ⟨r, hr⟩ := hport
    exact ⟨_, by rw [changeMng, hr]; rfl⟩
  | clientId | status | exit => exact ⟨_, rfl⟩

/-- One function exceeds another by at most one, at one place. -/
theorem sum_map_le_succ {f g : ℕ → ℕ} {a : ℕ} (hne : ∀ id, id ≠ a → g id = f id)
    (ha : g a ≤ f a + 1) {l : List ℕ} (hl : l.Nodup) : (l.map g).sum ≤ (l.map f).sum + 1 := by
  induction l with
  | nil => exact Nat.zero_le _
  | cons b l ih =>
    rw [List.nodup_cons] at hl
    rw [List.map_cons, List.map_cons, List.sum_cons, List.sum_cons]
    rcases eq_or_ne b a with rfl | hb
    · rw [List.map_congr_left fun id hid => hne id fun h => hl.1 (h ▸ hid)]
      omega
    · have hrest := ih hl.2
      rw [hne b hb]
      omega

/-- The first step of a command lengthens the list of one component, by one. -/
theorem exists_comp_of_change {req : CString} (hacc : Accepted P m req cmd)
    (hc : Change P m cmd m') {dir : PortDir} (hdir : dir = .rx ∨ dir = .tx) :
    ∃ a c, m'.comp = Function.update m.comp a c ∧
      (c.ports dir).length ≤ ((m.comp a).ports dir).length + 1 := by
  have hsame (heq : m'.comp = m.comp) : ∃ a c, m'.comp = Function.update m.comp a c ∧
      (c.ports dir).length ≤ ((m.comp a).ports dir).length + 1 :=
    ⟨0, m.comp 0, by rw [heq, Function.update_eq_self], Nat.le_succ _⟩
  have hempty {c : CompInfo} (hnil : c.ports dir = []) (a : ℕ) :
      (c.ports dir).length ≤ ((m.comp a).ports dir).length + 1 := by
    rw [hnil]
    exact Nat.zero_le _
  cases hc with
  | entry _ _ _ _ _ hflag =>
    obtain ⟨change, rfl⟩ := setComponentChangePort_eq_ok hflag
    exact hsame rfl
  | start => exact ⟨_, _, rfl, hempty (by rcases hdir with rfl | rfl <;> rfl) _⟩
  | stop => exact ⟨_, _, rfl, hempty (by rcases hdir with rfl | rfl <;> rfl) _⟩
  | absent | listed => exact hsame rfl
  | retag => exact ⟨_, _, rfl, Nat.le_succ _⟩
  | attach =>
    refine ⟨_, _, rfl, ?_⟩
    rcases PortDir.eq_or_opposite hacc.dir hdir with rfl | hopp
    · rw [CompInfo.ports_addPort, List.length_append, List.length_singleton]
    · rw [CompInfo.ports_addPort_opposite _ hopp]
      exact Nat.le_succ _
  | detach => exact ⟨_, _, rfl, (length_delPort_le hacc.dir hdir _).trans (Nat.le_succ _)⟩

/-- There is room for the ports that the flush of a command finds. -/
theorem ArraysFit.listRoom (h : ArraysFit P s) {req : CString} (hacc : Accepted P s.mng req cmd)
    (hc : Change P s.mng cmd m') : ListRoom P { s with mng := m' } (List.range P.maxLcore) := by
  intro dir hdir
  obtain ⟨a, c, hcomp, hlen⟩ := exists_comp_of_change hacc hc hdir
  have hroom := h dir hdir
  have hsum := sum_map_le_succ (a := a) (f := fun id => ((s.mng.comp id).ports dir).length)
    (g := fun id => ((m'.comp id).ports dir).length)
    (fun id hne => by rw [hcomp, Function.update_of_ne hne])
    (by rwa [hcomp, Function.update_self]) (List.nodup_range (n := P.maxLcore))
  exact (Nat.add_le_add_left hsum _).trans hroom

/-- What the guard says of the result of the parser. -/
theorem ReplyGuard.documented (hP : P.FitsInt) (hG : ReplyGuard P s e)
    (hfit : NamesFit P s.mng) : ∃ p, parseWkCmd P s.mng e.str = .ok p ∧
      ∀ cmd, p = .ok cmd ↔ Documented P s.mng (CString.tokens ' ' e.str) cmd := by
  have hwrong := (wrong_parseWkCmd_iff hfit e.str).not.mpr hG.parsed
  exact (faithful_iff_not_wrong hP e.str).mpr hwrong

/-- **A request that meets the guard** is executed, without a fault, and a status report
can be made afterwards. -/
theorem Reportable.exec (hvf : P.module = .vf) (hP : P.FitsInt)
    (h : Reportable P s) (hG : ReplyGuard P s e) (hparse : parseWkCmd P s.mng e.str = .ok (.ok cmd))
    (hdoc : Documented P s.mng (CString.tokens ' ' e.str) cmd) :
    ∃ r, execOneCmd P e.env s cmd = .ok r ∧ Reportable P r.2 := by
  unfold execOneCmd
  split
  · rename_i hhand
    obtain ⟨⟨ret, s₁⟩, hchange⟩ := changeMng_ne_error hP h.ports h.placed hdoc
    rw [hchange]
    rcases changeMng_cases (accepted_of_parse hparse) hhand hchange with
      ⟨rfl, rfl, -⟩ | ⟨rfl, m₁, rfl, hc⟩
    · exact ⟨_, rfl, h⟩
    have hports₁ := h.ports.change hvf h.placed hparse (sensible_of_documented hdoc) hc
    have hans₁ := h.answers.change hG.master hparse hc
    obtain ⟨ret, s', hflush, hf⟩ := flushCmd_tables hvf hG.hash hG.pmd
      (s := { s with mng := m₁ }) hports₁ hans₁
      (hG.arrays.listRoom (accepted_of_parse hparse) hc)
    refine ⟨(ret, s'), hflush, ?_⟩
    have hstep : handleRequest P s e = some s' := by
      unfold handleRequest execOneCmd
      rw [hparse]
      simp only [hhand, if_true, hchange, bind, Except.bind, thenFlush, hflush]
    have hdevices {c : CmdComp} (hcmd : cmd = .worker c) :
        (updatePortInfo P e.env.pmd s.mng).1 = .ok := hG.devices c (hcmd ▸ hparse)
    have hplacement : PlacementGuard P s e := by
      intro c hc'
      obtain rfl : cmd = .worker c := Except.ok.inj (Except.ok.inj (hparse.symm.trans hc'))
      exact ⟨not_shortStart_of_documented hdoc, hdevices rfl⟩
    refine h.flush hports₁ hG.pmd (h.placed.step hplacement hstep)
      (h.answers.step hG.master hstep) hc hflush hf (fun c hcmd => ?_)
      fun c hcmd => hG.early c (hcmd ▸ hparse)
    subst hcmd
    rw [hf.outcome]
    refine (updatePortInfo_congr ?_).trans (hdevices rfl)
    cases hc with
    | start | stop | absent => rfl
    | entry hcmd => rcases hcmd with hcmd | hcmd <;> cases hcmd
  · exact ⟨_, rfl, h⟩

/-! ## Replies -/

theorem makes_of_eq {op : ResFormatterOps} {t : CString} (h : op.2 op.1 [] = .ok (some t))
    (v : Json) : Makes False op v :=
  ⟨t, h, False.elim⟩

theorem appendCommandResultsValue_ne_none (name output : CString) (result : CmdResult) :
    ∃ tmp, appendCommandResultsValue name output result = .ok (some tmp) := by
  have hdetails : ∃ t, appendErrorDetailsValue result "error_details" [] = .ok (some t) := by
    unfold appendErrorDetailsValue
    split <;> exact ⟨_, rfl⟩
  obtain ⟨t, ht⟩ := hdetails
  have hops : List.Forall₂ (Makes False) (responseResultList result) [.null, .null] :=
    .cons (makes_of_eq rfl .null) (.cons (makes_of_eq ht .null) .nil)
  obtain ⟨tmp, htmp, -⟩ := appendResponseListValue_eq hops []
  unfold appendCommandResultsValue
  rw [htmp]
  exact ⟨_, rfl⟩

theorem sendDecodeErrorResponse_eq (err : ParseErrMsg) :
    ∃ text, sendDecodeErrorResponse err = .ok [text] := by
  obtain ⟨tmp, htmp⟩ := appendCommandResultsValue_ne_none "results" []
    (setCmdResult .failed (getParseErrMsg err))
  unfold sendDecodeErrorResponse
  rw [htmp]
  exact ⟨_, rfl⟩

theorem sendResultSppCtl_eq (hhost : HostFits P) (clientId : ℤ) (h : Reportable P s)
    (cmd : CmdAttrs) (result : CmdResult) :
    ∃ text, sendResultSppCtl P clientId s cmd result = .ok [text] := by
  obtain ⟨tmp, htmp⟩ := appendCommandResultsValue_ne_none "results" [] result
  have hanswer : ∃ tmp', appendAnswer P clientId s cmd tmp = .ok (some tmp') := by
    cases cmd with
    | status =>
      obtain ⟨tmp', h', -⟩ := appendInfoValue_eq hhost clientId h tmp
      exact ⟨tmp', h'⟩
    | clsMac | clsVlan | clientId | exit | worker | port => exact ⟨_, rfl⟩
  obtain ⟨tmp', htmp'⟩ := hanswer
  unfold sendResultSppCtl
  rw [htmp]
  show ∃ text, (appendAnswer P clientId s cmd tmp >>= _) = .ok [text]
  rw [htmp']
  exact ⟨_, rfl⟩

/-- **One request.** -/
theorem Reportable.answered (hvf : P.module = .vf) (hP : P.FitsInt) (hhost : HostFits P)
    (clientId : ℤ) (h : Reportable P s) (hfit : NamesFit P s.mng) (hG : ReplyGuard P s e) :
    ∃ r, execCmds P clientId s e = .ok r ∧ r.sent.length = 1 ∧
      (r.ret ≠ .ok ↔ CString.tokens ' ' e.str = ["exit"]) ∧ Reportable P r.state := by
  obtain ⟨p, hparse, hdoc⟩ := hG.documented hP hfit
  unfold execCmds
  rw [hparse]
  cases p with
  | error err =>
    obtain ⟨text, htext⟩ := sendDecodeErrorResponse_eq err
    have hexit : CString.tokens ' ' e.str ≠ ["exit"] := by
      intro hexit
      have herr := (hdoc .exit).mpr hexit
      cases herr
    refine ⟨⟨.ok, [text], s⟩, ?_, rfl, iff_of_false (fun hne => hne rfl) hexit, h⟩
    show (sendDecodeErrorResponse err >>= _) = _
    rw [htext]
    rfl
  | ok cmd =>
    obtain ⟨r, hexec, hr⟩ := h.exec hvf hP hG hparse ((hdoc cmd).mp rfl)
    obtain ⟨text, htext⟩ := sendResultSppCtl_eq hhost clientId hr cmd
      (if r.1 = .ok ∨ cmd = .exit then setCmdResult .success []
        else setCmdResult .failed "error occur")
    have hexit : cmd = .exit ↔ CString.tokens ' ' e.str = ["exit"] := by
      refine Iff.trans ?_ (hdoc .exit)
      exact ⟨fun hcmd => congrArg Except.ok hcmd, Except.ok.inj⟩
    refine ⟨⟨if cmd = .exit then .ng else .ok, [text], r.2⟩, ?_, rfl, ?_, hr⟩
    · show (execOneCmd P e.env s cmd >>= _) = _
      rw [hexec]
      show (sendResultSppCtl P clientId r.2 cmd _ >>= _) = _
      rw [htext]
      rfl
    · rw [← hexit]
      by_cases hcmd : cmd = .exit
      · exact iff_of_true (by simp [hcmd]) hcmd
      · exact iff_of_false (by simp [hcmd]) hcmd

theorem Reportable.step (hvf : P.module = .vf) (hP : P.FitsInt) (hhost : HostFits P)
    {s' : State} (h : Reportable P s) (hfit : NamesFit P s.mng)
    (hG : ReplyGuard P s e) (hstep : handleRequest P s e = some s') : Reportable P s' := by
  obtain ⟨r, hexec, -, -, hr⟩ := h.answered hvf hP hhost 0 hfit hG
  have hsame := handleRequest_of_execCmds P 0 hexec
  rw [hstep] at hsame
  rwa [Option.some.inj hsame]

theorem reportable_of_run (hvf : P.module = .vf) (hP : P.FitsInt) (hhost : HostFits P)
    {h : List (State × Request)} (hrun : Run (workerSystem P) h s)
    (hG : Guarded (ReplyGuard P) h) : Reportable P s ∧ NamesFit P s.mng := by
  refine hrun.invariant (I := fun s => Reportable P s ∧ NamesFit P s.mng) ?_ ?_ hG
  · rintro _ rfl
    exact ⟨reportable_startUp hhost, fun i _ =>
      (by decide : ([] : CString).length < sppwkNameBufsz)⟩
  · rintro s e s' ⟨hs, hfit⟩ hg hstep
    exact ⟨hs.step hvf hP hhost hfit hg hstep, hfit.step hstep⟩

/-- **Every request gets exactly one reply**, and the process leaves its loop exactly on
`exit`, in every run of `spp_vf` whose requests meet the guard. -/
theorem answered_of_run (P : Platform) (hvf : P.module = .vf) (hP : P.FitsInt)
    (hhost : HostFits P) (clientId : ℤ) {h : List (State × Request)} {s : State}
    (hrun : Run (workerSystem P) h s) (hG : Guarded (ReplyGuard P) h) (e : Request)
    (he : ReplyGuard P s e) :
    ∃ r, sppwkRunCmd P clientId s (.message e) = .ok r ∧ r.sent.length = 1 ∧
      (r.ret ≠ .ok ↔ CString.tokens ' ' e.str = ["exit"]) := by
  obtain ⟨hs, hfit⟩ := reportable_of_run hvf hP hhost hrun hG
  obtain ⟨r, hexec, hsent, hret, -⟩ := hs.answered hvf hP hhost clientId hfit he
  exact ⟨r, hexec, hsent, hret⟩

/-- A request during which the drivers give out the ids 8 and 16. -/
def steadyRequest (str : String) : Request :=
  ⟨str.toList, ⟨⟨fun _ => 8, fun _ => 16⟩, .ample, true⟩⟩

theorem hostFits_sample : HostFits (.sample .vf) := by
  refine ⟨?_, fun i id hdev => ?_, ?_, by decide, by decide⟩
  · exact (by decide : ∀ no : ℕ, no < 32 → nofQueues (.sample .vf) no ≤ 1024)
  · simp only [Platform.sample] at hdev
    split at hdev <;> cases hdev
  · exact (by decide : ∀ no : ℕ, no < 32 → 0 < nofQueues (.sample .vf) no →
      no < phyCount (.sample .vf) 32)

theorem not_mishandled_status (P : Platform) (m : MngData) : ¬ Mishandled P m "status" := by
  rintro (hlong | ⟨-, ⟨hcmd, -⟩ | ⟨hcmd, -⟩ | ⟨hcmd, -⟩ | ⟨hunknown, -⟩⟩)
  · exact absurd hlong (by decide)
  · exact absurd hcmd (by decide)
  · exact absurd hcmd (by decide)
  · exact absurd hcmd (by decide)
  · exact absurd hunknown (by decide)

theorem steadyRequest_ok (str : String) :
    PmdOk (.sample .vf) (steadyRequest str).env.pmd ∧ HashOk (steadyRequest str).env.hash := by
  refine ⟨fun n => ?_, fun i => ⟨rfl, rfl⟩⟩
  exact ⟨(by decide : (8 : ℤ) < 32), (by decide : (16 : ℤ) < 32)⟩

theorem parseWkCmd_start :
    parseWkCmd (.sample .vf) (startUp (.sample .vf)).mng "component start fwd 2 forward" =
      .ok (.ok (.worker ⟨.start, "fwd", 2, .fwd⟩)) := by decide +kernel

theorem replyGuard_start : ReplyGuard (.sample .vf) (startUp (.sample .vf))
    (steadyRequest "component start fwd 2 forward") := by
  refine ⟨not_mishandled_component_start, (steadyRequest_ok _).1, (steadyRequest_ok _).2,
    ?_, fun c hc => by decide +kernel, fun c hc _ hcore => ?_, fun c hc _ hcls => ?_⟩
  · rintro dir (rfl | rfl) <;> decide +kernel
  · cases parseWkCmd_start.symm.trans hc
    exact absurd hcore (by decide)
  · cases parseWkCmd_start.symm.trans hc
    cases hcls

/-- A component is started, and the status is asked for. -/
theorem answered_of_run_status :
    ∃ s, handleRequest (.sample .vf) (startUp (.sample .vf))
        (steadyRequest "component start fwd 2 forward") = some s ∧
      ∃ r, sppwkRunCmd (.sample .vf) 1 s (.message (steadyRequest "status")) = .ok r ∧
        r.sent.length = 1 ∧ (r.ret ≠ .ok ↔
          CString.tokens ' ' (steadyRequest "status").str = ["exit"]) := by
  have hany : (handleRequest (.sample .vf) (startUp (.sample .vf))
      (steadyRequest "component start fwd 2 forward")).any (fun s =>
        (∀ dir ∈ [PortDir.rx, .tx], (s.cap.pending dir).length + ((List.range 128).map fun id =>
          ((s.mng.comp id).ports dir).length).sum < 32) ∧
        parseWkCmd (.sample .vf) s.mng "status" = .ok (.ok .status)) = true := by
    decide +kernel
  obtain ⟨s, hs, hfacts⟩ := Option.any_eq_true _ _ |>.mp hany
  obtain ⟨harrays, hstatus⟩ := of_decide_eq_true hfacts
  have hask : ReplyGuard (.sample .vf) s (steadyRequest "status") := by
    have hnot (c : CmdComp) : parseWkCmd (.sample .vf) s.mng (steadyRequest "status").str ≠
        .ok (.ok (.worker c)) := by
      intro hc
      cases hstatus.symm.trans hc
    refine ⟨not_mishandled_status _ _, (steadyRequest_ok _).1, (steadyRequest_ok _).2, ?_,
      fun c hc => absurd hc (hnot c), fun c hc => absurd hc (hnot c),
      fun c hc => absurd hc (hnot c)⟩
    rintro dir (rfl | rfl)
    · exact harrays .rx (by decide)
    · exact harrays .tx (by decide)
  refine ⟨s, hs, answered_of_run (.sample .vf) rfl ⟨by decide, by decide⟩ hostFits_sample 1
    (.snoc (.start rfl) hs) ?_ (steadyRequest "status") hask⟩
  rw [guarded_cons]
  exact ⟨replyGuard_start, guarded_nil _⟩

/-- **No reply.**  After a `component start` without a type, `status` is not answered. -/
theorem not_answered_of_short_start :
    ∃ h s r, Run (workerSystem (.sample .vf)) h s ∧
      h.map Prod.snd = [.plain "component start foo 2"] ∧
      sppwkRunCmd (.sample .vf) 1 s (.message (.plain "status")) = .ok r ∧ r.sent = [] := by
  obtain ⟨h, s, hrun, hmap, hs⟩ := exists_run_of_requests (.sample .vf)
    [.plain "component start foo 2"]
    (fun s => (match sppwkRunCmd (.sample .vf) 1 s (.message (.plain "status")) with
      | .ok r => decide (r.sent = [])
      | .error _ => false) = true) (by decide +kernel)
  split at hs
  · rename_i r hr
    exact ⟨h, s, r, hrun, hmap, hr, of_decide_eq_true hs⟩
  · cases hs

end SoftPatchPanel.Vf
