import SoftPatchPanel.Vf.SyncedTables

/-!
# When the reported classifier table is exact

The invariant behind `Reported`, and that requests keep it.  The tables are those of the
management data (`Synced`).  For the report to be exact the keys of a classifier's tx ports have
to be distinct as well (`Described`), and slots that are no classifiers have to be unused.  The
guard is what keeps the two so.
-/

namespace SoftPatchPanel.Vf

open Transition Worker

variable {P : Platform} {m m' m₁ : MngData} {iface iface' : PortRef → PortInfo}
  {refs : List PortRef} {r : PortRef} {c : CompInfo} {id : ℕ} {s : State} {e : Request}
  {cmd : CmdAttrs}

/-! ## The management data -/

/-- The management data are in order. -/
structure Described (P : Platform) (m : MngData) : Prop where
  owned : Owned P m
  iface : ∀ r, IfaceOk r (m.iface r)
  typed : ∀ id dir, dir = .rx ∨ dir = .tx → ∀ r ∈ (m.comp id).ports dir,
    (m.iface r).ifaceType = r.portIdx.ifaceType
  compId : ∀ id, (m.comp id).wkType = .cls → (m.comp id).compId = id
  distinct : ∀ id < P.maxLcore, (m.comp id).wkType = .cls →
    KeysDistinct m.iface ((m.comp id).ports .tx)

theorem Described.of_placed (h : Placed P m) (hd : ∀ id < P.maxLcore,
    (m.comp id).wkType = .cls → KeysDistinct m.iface ((m.comp id).ports .tx)) : Described P m :=
  ⟨h.owned, h.iface, h.typed, h.compId, hd⟩

theorem keysDistinct_congr
    (h : ∀ r ∈ refs, (iface' r).clsAttrs = (iface r).clsAttrs) (hd : KeysDistinct iface refs) :
    KeysDistinct iface' refs := by
  intro r hr r' hr' hne hne' hkey
  rw [portKey, portKey, h r hr, h r' hr'] at hkey
  rw [h r hr] at hne
  rw [h r' hr'] at hne'
  exact hd r hr r' hr' hne hne' hkey

/-- One port has a new entry, whose key is that of no other port. -/
theorem keysDistinct_edit
    (hother : ∀ r', r' ≠ r → iface' r' = iface r') (h : KeysDistinct iface refs)
    (hnew : r ∈ refs → ∀ r' ∈ refs, r' ≠ r → (iface' r).clsAttrs.macAddr ≠ 0 →
      (iface' r').clsAttrs.macAddr ≠ 0 → portKey (iface' r') ≠ portKey (iface' r)) :
    KeysDistinct iface' refs := by
  intro r₁ hr₁ r₂ hr₂ hm₁ hm₂ hkey
  rcases eq_or_ne r₁ r with rfl | hne₁
  · rcases eq_or_ne r₂ r₁ with rfl | hne₂
    · rfl
    · exact absurd hkey.symm (hnew hr₁ r₂ hr₂ hne₂ hm₁ hm₂)
  rcases eq_or_ne r₂ r with rfl | hne₂
  · exact absurd hkey (hnew hr₂ r₁ hr₁ hne₁ hm₂ hm₁)
  · rw [hother r₁ hne₁] at hm₁ hkey
    rw [hother r₂ hne₂] at hm₂ hkey
    exact h r₁ hr₁ r₂ hr₂ hm₁ hm₂ hkey

/-- One more port is listed, and its key is that of no other port. -/
theorem keysDistinct_addPort {d : PortDir}
    (hd : d = .rx ∨ d = .tx) (h : KeysDistinct iface (c.ports .tx))
    (hnew : d = .tx → (iface r).clsAttrs.macAddr ≠ 0 → ∀ r' ∈ c.ports .tx,
      (iface r').clsAttrs.macAddr ≠ 0 → portKey (iface r') ≠ portKey (iface r)) :
    KeysDistinct iface ((c.addPort d r).ports .tx) := by
  intro r₁ hr₁ r₂ hr₂ hm₁ hm₂ hkey
  rw [CompInfo.mem_ports_addPort hd (.inr rfl)] at hr₁ hr₂
  rcases hr₁ with hr₁ | ⟨rfl, hdir⟩
  · rcases hr₂ with hr₂ | ⟨rfl, hdir⟩
    · exact h r₁ hr₁ r₂ hr₂ hm₁ hm₂ hkey
    · exact absurd hkey (hnew hdir.symm hm₂ r₁ hr₁ hm₁)
  · rcases hr₂ with hr₂ | ⟨rfl, -⟩
    · exact absurd hkey.symm (hnew hdir.symm hm₁ r₂ hr₂ hm₂)
    · rfl

/-- One slot has been replaced, and entries have at most been retyped. -/
theorem Described.distinct_edit (h : Described P m) (hcomp : m'.comp = Function.update m.comp id c)
    (hiface : ∀ r, Retyped r (m.iface r) (m'.iface r))
    (hkeys : id < P.maxLcore → c.wkType = .cls → KeysDistinct m.iface (c.ports .tx)) :
    ∀ i < P.maxLcore, (m'.comp i).wkType = .cls → KeysDistinct m'.iface ((m'.comp i).ports .tx) := by
  intro i hi
  rcases eq_or_ne i id with rfl | hne
  · rw [hcomp, Function.update_self]
    exact fun hcls => keysDistinct_congr (fun r _ => (hiface r).attrs) (hkeys hi hcls)
  · rw [hcomp, Function.update_of_ne hne]
    exact fun hcls => keysDistinct_congr (fun r _ => (hiface r).attrs) (h.distinct i hi hcls)

/-- What a request must not do: give a component a port of another one, fail, stop a
classifier, or give two tx ports of a classifier the same key. -/
structure ReportGuard (P : Platform) (s : State) (e : Request) : Prop where
  owner : OwnershipGuard P s e
  ok : ∀ cmd r, parseWkCmd P s.mng e.str = .ok (.ok cmd) →
    execOneCmd P e.env s cmd = .ok r → r.1 = .ok
  stop : ∀ c id, parseWkCmd P s.mng e.str = .ok (.ok (.worker c)) → c.wkAction = .stop →
    sppwkGetLcoreId P s.mng c.name = some id → (s.mng.comp id).wkType ≠ .cls
  entry : ∀ cmd a mac r id, parseWkCmd P s.mng e.str = .ok (.ok cmd) →
    cmd = .clsMac a ∨ cmd = .clsVlan a → a.wkAction = .add →
    sppwkConvertMacStrToInt64 a.mac = .ok mac → mac ≠ 0 →
    getSppwkPort P a.port.ifaceType a.port.ifaceNo a.port.queueNo = .ok (some r) →
    id < P.maxLcore → (s.mng.comp id).wkType = .cls → r ∈ (s.mng.comp id).ports .tx →
    ∀ r' ∈ (s.mng.comp id).ports .tx, r' ≠ r → (s.mng.iface r').clsAttrs.macAddr ≠ 0 →
    portKey (s.mng.iface r') ≠ clsKey a.vid mac
  attach : ∀ p id r, parseWkCmd P s.mng e.str = .ok (.ok (.port p)) → p.wkAction = .add →
    p.dir = .tx → sppwkGetLcoreId P s.mng p.name = some id →
    getSppwkPort P p.port.ifaceType p.port.ifaceNo p.port.queueNo = .ok (some r) →
    (s.mng.comp id).wkType = .cls → (s.mng.iface r).clsAttrs.macAddr ≠ 0 →
    ∀ r' ∈ (s.mng.comp id).ports .tx, (s.mng.iface r').clsAttrs.macAddr ≠ 0 →
    portKey (s.mng.iface r') ≠ portKey (s.mng.iface r)

/-- A new entry keeps the keys distinct. -/
theorem Described.distinct_entry (h : Described P s.mng)
    (hG : ReportGuard P s e) {a : ClsCmdAttrs} {mac : BitVec 64}
    {attrs : ClsAttrs} (hparse : parseWkCmd P s.mng e.str = .ok (.ok cmd))
    (hcmd : cmd = .clsMac a ∨ cmd = .clsVlan a) (hmac : sppwkConvertMacStrToInt64 a.mac = .ok mac)
    (hport : getSppwkPort P a.port.ifaceType a.port.ifaceNo a.port.queueNo = .ok (some r))
    (hattrs : updateClsAttrs a mac (s.mng.iface r).clsAttrs = some attrs)
    (hcomp : m'.comp = s.mng.comp)
    (hiface : m'.iface = Function.update s.mng.iface r { s.mng.iface r with clsAttrs := attrs }) :
    ∀ id < P.maxLcore, (m'.comp id).wkType = .cls →
      KeysDistinct m'.iface ((m'.comp id).ports .tx) := by
  have hacc := acceptedCls_of_entry hcmd (accepted_of_parse hparse)
  have hcases := updateClsAttrs_eq_some hacc.action hattrs
  have hself : m'.iface r = { s.mng.iface r with clsAttrs := attrs } := by
    rw [hiface, Function.update_self]
  have hother {r' : PortRef} (hne : r' ≠ r) : m'.iface r' = s.mng.iface r' := by
    rw [hiface, Function.update_of_ne hne]
  intro id hid hcls
  rw [hcomp] at hcls ⊢
  refine keysDistinct_edit (fun r' => hother) (h.distinct id hid hcls)
    fun hr r' hr' hne hm hm' => ?_
  -- the new key is that of no other port
  rw [hself] at hm ⊢
  rw [hother hne] at hm' ⊢
  rcases hcases with ⟨hadd, rfl⟩ | ⟨-, rfl⟩
  · exact hG.entry cmd a mac r id hparse hcmd hadd hmac hm hport hid hcls hr r' hr' hne hm'
  · exact absurd rfl hm

/-- **The first step keeps the keys distinct.** -/
theorem Described.distinct_change (h : Described P s.mng) (hG : ReportGuard P s e)
    (hparse : parseWkCmd P s.mng e.str = .ok (.ok cmd)) (hc : Change P s.mng cmd m₁) :
    ∀ id < P.maxLcore, (m₁.comp id).wkType = .cls →
      KeysDistinct m₁.iface ((m₁.comp id).ports .tx) := by
  cases hc with
  | entry hcmd hmac hport _ hattrs hflag =>
    obtain ⟨change, rfl⟩ := setComponentChangePort_eq_ok hflag
    exact h.distinct_entry hG hparse hcmd hmac hport hattrs rfl rfl
  | @start c id =>
    refine h.distinct_edit rfl (fun r => retyped_refl r _) fun _ _ r hr => ?_
    rw [ports_startedComp] at hr
    exact absurd hr List.not_mem_nil
  | stop =>
    exact h.distinct_edit rfl (fun r => retyped_refl r _) fun _ hcls => absurd hcls (by decide)
  | absent | listed => exact h.distinct
  | @retag p id r =>
    exact h.distinct_edit rfl (retyped_update ⟨rfl, rfl, rfl, .inl rfl⟩) (h.distinct id)
  | @attach p id r port hact hid hport _ hnew _ hattr =>
    refine h.distinct_edit rfl (retyped_update (retyped_attach hport hattr)) fun hlt hcls => ?_
    rw [addPort_wkType] at hcls
    exact keysDistinct_addPort (parseWkCmd_port hparse).dir (h.distinct id hlt hcls)
      fun hdir => hG.attach p id r hparse hact hdir hid hport hcls
  | @detach p id r hact hid hport =>
    have hdir := (parseWkCmd_port hparse).dir
    refine h.distinct_edit rfl (retyped_update ⟨rfl, rfl, rfl, .inl rfl⟩) fun hlt hcls => ?_
    have hold := h.distinct id hlt ((delPort_wkType _ _ _).symm.trans hcls)
    intro r₁ hr₁ r₂ hr₂
    exact hold r₁ (CompInfo.mem_of_mem_delPort hdir (.inr rfl) hr₁) r₂
      (CompInfo.mem_of_mem_delPort hdir (.inr rfl) hr₂)

/-- Classifiers are not stopped. -/
theorem wkType_of_change
    (hG : ReportGuard P s e) (hparse : parseWkCmd P s.mng e.str = .ok (.ok cmd))
    (hc : Change P s.mng cmd m₁) (hcls : (s.mng.comp id).wkType = .cls) :
    (m₁.comp id).wkType = .cls := by
  cases hc.slot id with
  | kept hcomp => rwa [hcomp]
  | started _ _ hfree =>
    exact absurd ((getFreeLcoreId_eq_some P hfree).2.symm.trans hcls) (by decide)
  | @stopped c hcmd hact hid => exact absurd hcls (hG.stop c id (hcmd ▸ hparse) hact hid)
  | edited _ _ htype => rwa [htype]

/-! ## The tables -/

/-- The tables are those of the management data. -/
structure Exact (P : Platform) (s : State) : Prop where
  described : Described P s.mng
  unused : ∀ id < P.maxLcore, (s.mng.comp id).wkType ≠ .cls → s.cls id = .zero
  settled : ∀ id < P.maxLcore, (s.mng.comp id).wkType = .cls → Settled (s.cls id)
  entries : ∀ id < P.maxLcore, (s.mng.comp id).wkType = .cls → ∀ x,
    x ∈ (s.cls id).ref.entries ↔ EntryOf s.mng.iface ((s.mng.comp id).ports .tx) x

theorem Exact.reported (h : Exact P s) : Reported P s := by
  have hlive : ∀ id < P.maxLcore, (s.cls id).isUsed = true → (s.mng.comp id).wkType = .cls := by
    intro id hid hused
    by_contra hne
    rw [h.unused id hid hne] at hused
    exact absurd hused (by decide)
  refine ⟨fun x => ?_, hlive⟩
  simp only [addClassifierTable, List.mem_flatMap, List.mem_range]
  refine exists_congr fun id => and_congr_right fun hid => ?_
  constructor
  · intro hx
    split at hx
    · rename_i hused
      have hcls := hlive id hid hused
      exact ⟨hcls, (h.entries id hid hcls x).mp hx⟩
    · exact absurd hx List.not_mem_nil
  · rintro ⟨hcls, hx⟩
    rw [if_pos (h.settled id hid hcls).isUsed]
    exact (h.entries id hid hcls x).mpr hx

/-- Tables of ports with distinct keys are exact. -/
theorem Synced.exact (h : Synced P s) (hd : Described P s.mng)
    (hunused : ∀ id < P.maxLcore, (s.mng.comp id).wkType ≠ .cls → s.cls id = .zero) :
    Exact P s := by
  refine ⟨hd, hunused, fun id hid hcls => ?_, fun id hid hcls x => ?_⟩
  · exact (h.settled id hid).resolve_right fun hzero => hzero.2 hcls
  refine (h.tables id hid hcls).mem_entries (hd.owned.nodup id .tx (.inr rfl)) (fun r _ => ?_)
    (hd.distinct id hid hcls)
  obtain ⟨h0, hmax⟩ := (hd.iface r).vid
  have hle : (s.mng.iface r).clsAttrs.vlantag.vid ≤ 4095 := hmax
  show ((s.mng.iface r).clsAttrs.vlantag.vid % 2 ^ 16).toNat < 4096
  omega

/-- **A request that meets the guard keeps the tables exact.** -/
theorem Exact.step (hvf : P.module = .vf) {s' : State} (h : Exact P s)
    (hsynced : Synced P s) (hG : ReportGuard P s e) (hstep : handleRequest P s e = some s') :
    Exact P s' := by
  have hsynced' := hsynced.step hvf ⟨hG.owner, hG.ok⟩ hstep
  rcases handleRequest_cases hstep with rfl | ⟨cmd, m₁, ret, hparse, hexec, hc, hflush⟩
  · exact h
  have hret : ret = .ok := hG.ok cmd _ hparse hexec
  subst hret
  have hf : FlushEffect P e.env.pmd m₁ s'.mng := flushCmd_effect hflush
  have hd : Described P s'.mng := .of_placed hsynced'.placed fun id hid hcls => by
    rw [hf.comp] at hcls ⊢
    exact keysDistinct_congr (fun r _ => (retyped_of_flush hf r).attrs)
      (h.described.distinct_change hG hparse hc id hid hcls)
  refine hsynced'.exact hd fun id hid hne => ?_
  have hids : ∀ i, (m₁.comp i).wkType = .cls → (m₁.comp i).compId = i := by
    rw [← hf.comp]
    exact hd.compId
  rw [(flushCmd_cls hvf hids hflush hid).2 fun hm => hne hm.2]
  refine h.unused id hid fun hcls => hne ?_
  rw [hf.comp]
  exact wkType_of_change hG hparse hc hcls

theorem exact_startUp : Exact P (startUp P) := by
  have hnone (id : ℕ) : ((startUp P).mng.comp id).wkType ≠ .cls := by
    show WorkerType.none ≠ .cls
    decide
  exact synced_startUp.exact (.of_placed synced_startUp.placed fun id _ h => absurd h (hnone id))
    fun _ _ _ => rfl

/-- **The reported classifier table is exact** in every state of a run of `spp_vf` whose
requests meet the guard. -/
theorem reported_of_run (P : Platform) (hvf : P.module = .vf) {h : List (State × Request)}
    {s : State} (hrun : Run (workerSystem P) h s) (hG : Guarded (ReportGuard P) h) :
    Reported P s := by
  have hexact : Synced P s ∧ Exact P s := by
    refine hrun.invariant (I := fun s => Synced P s ∧ Exact P s) ?_ ?_ hG
    · rintro _ rfl
      exact ⟨synced_startUp, exact_startUp⟩
    · intro s e s' hs hg hstep
      exact ⟨hs.1.step hvf ⟨hg.owner, hg.ok⟩ hstep, hs.2.step hvf hs.1 hg hstep⟩
  exact hexact.2.reported

/-- A test for requests that meet the guard: starts, and additions while there is
nothing that they could collide with. -/
def addsAlone (s : State) (e : Request) : Bool :=
  match parseWkCmd (.sample .vf) s.mng e.str with
  | .ok (.ok cmd) =>
    (match execOneCmd (.sample .vf) e.env s cmd with
      | .ok (.ok, _) => true
      | _ => false) &&
    (match cmd with
      | .worker c => c.wkAction = .start
      | .port p => p.wkAction = .add ∧ ∀ i ∈ List.range 128, (s.mng.comp i).ports p.dir = []
      | .clsMac _ => ∀ i ∈ List.range 128, ((s.mng.comp i).ports .tx).length ≤ 1
      | _ => false)
  | _ => false

theorem ReportGuard.of_addsAlone (h : addsAlone s e = true) : ReportGuard (.sample .vf) s e := by
  unfold addsAlone at h
  split at h
  · rename_i cmd hparse
    obtain ⟨hexec, hcmd⟩ := Bool.and_eq_true_iff.mp h
    have hsame {cmd' : CmdAttrs} (h' : parseWkCmd (.sample .vf) s.mng e.str = .ok (.ok cmd')) :
        cmd = cmd' := Except.ok.inj (Except.ok.inj (hparse.symm.trans h'))
    refine ⟨fun p id r hp _ _ hid _ i hi _ => ?_, fun cmd' r h' hr => ?_,
      fun c id hc hstop _ => ?_, fun cmd' a mac r id h' hcmd' _ _ _ _ hid _ hr r' hr' hne => ?_,
      fun p id r hp _ hdir hid _ _ _ r' hr' => ?_⟩
    · cases hsame hp
      have hnil := (of_decide_eq_true hcmd).2 i (List.mem_range.mpr hi)
      rw [hnil]
      exact List.not_mem_nil
    · cases hsame h'
      rw [hr] at hexec
      obtain ⟨ret, s'⟩ := r
      cases ret with
      | ok => rfl
      | ng => exact absurd hexec (by simp)
    · cases hsame hc
      exact absurd ((of_decide_eq_true hcmd).symm.trans hstop) (by decide)
    · cases hsame h'
      rcases hcmd' with rfl | rfl
      · have hone := of_decide_eq_true hcmd id (List.mem_range.mpr hid)
        obtain ⟨x, hx⟩ := List.length_eq_one_iff.mp
          (le_antisymm hone (List.length_pos_of_mem hr))
        rw [hx, List.mem_singleton] at hr hr'
        exact absurd (hr'.trans hr.symm) hne
      · exact absurd hcmd (by simp)
    · cases hsame hp
      have hlt := (sppwkGetLcoreId_eq_some _ hid).1
      have hnil := (of_decide_eq_true hcmd).2 id (List.mem_range.mpr hlt)
      rw [hdir] at hnil
      rw [hnil] at hr'
      exact absurd hr' List.not_mem_nil
  · exact absurd h (by simp)

/-- A classifier with an entry. -/
theorem reported_of_run_entry :
    ∃ h s, Run (workerSystem (.sample .vf)) h s ∧
      addClassifierTable (.sample .vf) s.cls =
        [⟨vlanUntaggedVid, some 0x563412005452#48, ⟨.ring, 0, 0⟩⟩] ∧ Reported (.sample .vf) s := by
  obtain ⟨h, s, hrun, -, hG, hs⟩ := exists_guarded_run addsAlone ReportGuard.of_addsAlone
    (startUp (.sample .vf)) (handleRequest (.sample .vf))
    [.plain "component start cls 2 classifier", .plain "port add ring:0 tx cls",
      .plain "classifier_table add mac 52:54:00:12:34:56 ring:0"]
    (fun s => addClassifierTable (.sample .vf) s.cls =
      [⟨vlanUntaggedVid, some 0x563412005452#48, ⟨.ring, 0, 0⟩⟩]) (by decide +kernel)
  exact ⟨h, s, hrun, hs, reported_of_run (.sample .vf) rfl hrun hG⟩

/-- **A table without a classifier.**  The classifier has been stopped, and its entry is
still reported. -/
theorem not_reported_of_stop :
    ∃ h s, Run (workerSystem (.sample .vf)) h s ∧
      h.map Prod.snd =
        [.plain "component stop cls", .plain "classifier_table add mac 52:54:00:12:34:56 ring:0",
          .plain "port add ring:0 tx cls", .plain "component start cls 2 classifier"] ∧
      addClassifierTable (.sample .vf) s.cls =
        [⟨vlanUntaggedVid, some 0x563412005452#48, ⟨.ring, 0, 0⟩⟩] ∧ ¬ Reported (.sample .vf) s := by
  obtain ⟨h, s, hrun, hmap, htable, hnone⟩ := exists_run_of_requests (.sample .vf)
    [.plain "component start cls 2 classifier", .plain "port add ring:0 tx cls",
      .plain "classifier_table add mac 52:54:00:12:34:56 ring:0", .plain "component stop cls"]
    (fun s => addClassifierTable (.sample .vf) s.cls =
        [⟨vlanUntaggedVid, some 0x563412005452#48, ⟨.ring, 0, 0⟩⟩] ∧
      ∀ id ∈ List.range 128, (s.mng.comp id).wkType ≠ .cls)
    (by decide +kernel)
  refine ⟨h, s, hrun, hmap, htable, fun hrep => ?_⟩
  have hmem : ⟨vlanUntaggedVid, some 0x563412005452#48, ⟨.ring, 0, 0⟩⟩ ∈
      addClassifierTable (.sample .vf) s.cls := by
    rw [htable]
    exact List.mem_singleton_self _
  obtain ⟨id, hid, hcls, -⟩ := (hrep.entries _).mp hmem
  exact hnone id (List.mem_range.mpr hid) hcls

end SoftPatchPanel.Vf
