import SoftPatchPanel.Worker.CompPorts

/-!
# Who owns a port

A queue that two components read is shared out between them at random, so a port
may be in the rx list of one component only, and likewise for tx.  The parser tests
this for all components, and `update_port` tests it again for the component that is
named.

The parser's tests are skipped for requests of eight tokens, which are meant to
replace the tag of a port that the component already has.  Such a request that names
a port of another component attaches it to both.  Without such requests ownership
is exclusive.
-/

namespace SoftPatchPanel.Worker

open Transition

variable {P : Platform} {m m' : MngData} {id : ℕ} {c : CompInfo} {r : PortRef} {s : State}
  {e : Request} {dir : PortDir}

/-- **Ownership.**  Every port is in the list of at most one component in each
direction, and there at most once. -/
def Exclusive (P : Platform) (m : MngData) : Prop :=
  ∀ dir, dir = .rx ∨ dir = .tx → ∀ r : PortRef,
    (∀ i < P.maxLcore, ((m.comp i).ports dir).count r ≤ 1) ∧
    ∀ i < P.maxLcore, ∀ j < P.maxLcore,
      r ∈ (m.comp i).ports dir → r ∈ (m.comp j).ports dir → i = j

/-- The invariant: lists without repetitions and without a common port, and only
components with a type have ports. -/
structure Owned (P : Platform) (m : MngData) : Prop where
  nodup : ∀ i dir, dir = .rx ∨ dir = .tx → ((m.comp i).ports dir).Nodup
  disjoint : ∀ dir, dir = .rx ∨ dir = .tx → ∀ i < P.maxLcore, ∀ j < P.maxLcore, ∀ r,
    r ∈ (m.comp i).ports dir → r ∈ (m.comp j).ports dir → i = j
  typed : ∀ i dir, dir = .rx ∨ dir = .tx → ∀ r ∈ (m.comp i).ports dir, (m.comp i).wkType ≠ .none

theorem Owned.exclusive (h : Owned P m) : Exclusive P m := by
  intro dir hdir r
  constructor
  · intro i _
    exact List.nodup_iff_count_le_one.mp (h.nodup i dir hdir) r
  · intro i hi j hj
    exact h.disjoint dir hdir i hi j hj r

/-- The component that the command thread finds for a port. -/
theorem Owned.usedBy_eq (h : Owned P m) {id : ℕ} (hid : id < P.maxLcore) {dir : PortDir}
    (hdir : dir = .rx ∨ dir = .tx) {r : PortRef} (hr : r ∈ (m.comp id).ports dir) :
    usedBy P m r dir = some id := by
  cases hused : usedBy P m r dir with
  | none =>
    have htype := h.typed id dir hdir r hr
    rw [usedBy_eq_none_iff] at hused
    rw [← CompInfo.scanned_eq _ hdir] at hr
    exact absurd hr (hused id hid htype)
  | some id' =>
    obtain ⟨hid', -, hr'⟩ := usedBy_eq_some P hused
    rw [CompInfo.scanned_eq _ hdir] at hr'
    rw [h.disjoint dir hdir id hid id' hid' r hr hr']

/-- One slot has been replaced by a component whose ports nobody else has. -/
theorem Owned.update (h : Owned P m) (hcomp : m'.comp = Function.update m.comp id c)
    (hnodup : ∀ dir, dir = .rx ∨ dir = .tx → (c.ports dir).Nodup)
    (hnew : ∀ dir, dir = .rx ∨ dir = .tx → ∀ r ∈ c.ports dir,
      c.wkType ≠ .none ∧ ∀ i < P.maxLcore, i ≠ id → r ∉ (m.comp i).ports dir) : Owned P m' := by
  refine ⟨fun i dir hdir => ?_, fun dir hdir i hi j hj r hri hrj => ?_, fun i dir hdir r hr => ?_⟩
  · rcases eq_or_ne i id with rfl | hne
    · rw [hcomp, Function.update_self]
      exact hnodup dir hdir
    · rw [hcomp, Function.update_of_ne hne]
      exact h.nodup i dir hdir
  · rcases eq_or_ne i id with rfl | hine
    · rcases eq_or_ne j i with rfl | hjne
      · rfl
      · rw [hcomp, Function.update_self] at hri
        rw [hcomp, Function.update_of_ne hjne] at hrj
        exact absurd hrj ((hnew dir hdir r hri).2 j hj hjne)
    rw [hcomp, Function.update_of_ne hine] at hri
    rcases eq_or_ne j id with rfl | hjne
    · rw [hcomp, Function.update_self] at hrj
      exact absurd hri ((hnew dir hdir r hrj).2 i hi hine)
    · rw [hcomp, Function.update_of_ne hjne] at hrj
      exact h.disjoint dir hdir i hi j hj r hri hrj
  · rcases eq_or_ne i id with rfl | hne
    · rw [hcomp, Function.update_self] at hr ⊢
      exact (hnew dir hdir r hr).1
    · rw [hcomp, Function.update_of_ne hne] at hr ⊢
      exact h.typed i dir hdir r hr

/-- A slot without ports is harmless. -/
theorem Owned.update_of_ports_nil (h : Owned P m) (hcomp : m'.comp = Function.update m.comp id c)
    (hnil : ∀ dir, dir = .rx ∨ dir = .tx → c.ports dir = []) : Owned P m' := by
  refine h.update hcomp (fun dir hdir => ?_) (fun dir hdir r hr => ?_)
  · rw [hnil dir hdir]
    exact List.nodup_nil
  · rw [hnil dir hdir] at hr
    exact absurd hr (by simp)

theorem Owned.congr (h : Owned P m) (hcomp : m'.comp = m.comp) : Owned P m' := by
  obtain ⟨h₁, h₂, h₃⟩ := h
  rw [← hcomp] at h₁ h₂ h₃
  exact ⟨h₁, h₂, h₃⟩

/-- A request to add a port that skips the tests for ports in use does not name a
port that another component has. -/
def OwnershipGuard (P : Platform) (s : State) (e : Request) : Prop :=
  ∀ p id r, parseWkCmd P s.mng e.str = .ok (.ok (.port p)) → p.wkAction = .add →
    FullLength e.str → sppwkGetLcoreId P s.mng p.name = some id →
    getSppwkPort P p.port.ifaceType p.port.ifaceNo p.port.queueNo = .ok (some r) →
    ∀ i < P.maxLcore, i ≠ id → r ∉ (s.mng.comp i).ports p.dir

/-- A port that passes the tests is nobody's, or the guard speaks for it. -/
theorem notMem_ports_of_accepted (h : Owned P s.mng) (hG : OwnershipGuard P s e) {p : CmdPort}
    (hparse : parseWkCmd P s.mng e.str = .ok (.ok (.port p))) (hact : p.wkAction = .add)
    (hid : sppwkGetLcoreId P s.mng p.name = some id)
    (hport : getSppwkPort P p.port.ifaceType p.port.ifaceNo p.port.queueNo = .ok (some r)) :
    ∀ i < P.maxLcore, i ≠ id → r ∉ (s.mng.comp i).ports p.dir := by
  have hacc := parseWkCmd_port hparse
  by_cases hfull : FullLength e.str
  · exact hG p id r hparse hact hfull hid hport
  intro i hi _ hr
  have hunused := sppwkCheckUsedPort_eq_usedBy hport (hacc.free hact hfull)
  have htype := h.typed i p.dir hacc.dir r hr
  rw [usedBy_eq_none_iff] at hunused
  rw [← CompInfo.scanned_eq _ hacc.dir] at hr
  exact hunused i hi htype hr

/-- `check_vf_port_count` lets no port through to a component without a type. -/
theorem wkType_ne_none_of_checkPortCount (hvf : P.module = .vf)
    (h : checkPortCount P c dir = .ok) : c.wkType ≠ .none := by
  intro hnone
  rw [checkPortCount, hvf] at h
  simp only [hnone, checkVfPortCount] at h
  exact absurd h (by decide)

theorem addPort_wkType (c : CompInfo) (dir : PortDir) (r : PortRef) :
    (c.addPort dir r).wkType = c.wkType := by
  cases dir <;> rfl

theorem delPort_wkType (c : CompInfo) (dir : PortDir) (r : PortRef) :
    (c.delPort dir r).wkType = c.wkType := (delPort_identity c dir r).2.1

/-- Attaching a port that nobody else has. -/
theorem Owned.attach (h : Owned P m)
    (hid : id < P.maxLcore) (hdir : dir = .rx ∨ dir = .tx) (htype : (m.comp id).wkType ≠ .none)
    (hown : r ∉ (m.comp id).ports dir)
    (hothers : ∀ i < P.maxLcore, i ≠ id → r ∉ (m.comp i).ports dir)
    (hcomp : m'.comp = Function.update m.comp id ((m.comp id).addPort dir r)) : Owned P m' := by
  refine h.update hcomp (fun d hd => ?_) (fun d hd r' hr' => ?_)
  · rcases PortDir.eq_or_opposite hdir hd with rfl | hopp
    · rw [CompInfo.ports_addPort, List.nodup_append]
      refine ⟨h.nodup id d hd, List.nodup_singleton r, fun a ha b hb hab => ?_⟩
      rw [List.mem_singleton] at hb
      subst hb
      exact hown (hab ▸ ha)
    · rw [CompInfo.ports_addPort_opposite _ hopp]
      exact h.nodup id d hd
  · rw [addPort_wkType]
    refine ⟨htype, fun i hi hne hri => ?_⟩
    rcases PortDir.eq_or_opposite hdir hd with rfl | hopp
    · rw [CompInfo.ports_addPort, List.mem_append, List.mem_singleton] at hr'
      rcases hr' with hr' | rfl
      · exact hne (h.disjoint d hd i hi id hid r' hri hr')
      · exact hothers i hi hne hri
    · rw [CompInfo.ports_addPort_opposite _ hopp] at hr'
      exact hne (h.disjoint d hd i hi id hid r' hri hr')

/-- Detaching a port. -/
theorem Owned.detach (h : Owned P m) (hid : id < P.maxLcore) (hdir : dir = .rx ∨ dir = .tx)
    (hcomp : m'.comp = Function.update m.comp id ((m.comp id).delPort dir r)) : Owned P m' := by
  refine h.update hcomp (fun d hd => ?_) (fun d hd r' hr' => ?_)
  · exact CompInfo.nodup_delPort hdir hd (h.nodup id d hd)
  have hmem := CompInfo.mem_of_mem_delPort hdir hd hr'
  rw [delPort_wkType]
  exact ⟨h.typed id d hd r' hmem, fun i hi hne hri =>
    hne (h.disjoint d hd i hi id hid r' hri hmem)⟩

/-- A request that meets the guard keeps ownership exclusive. -/
theorem Owned.step (hvf : P.module = .vf) {s' : State} (h : Owned P s.mng)
    (hG : OwnershipGuard P s e) (hstep : handleRequest P s e = some s') : Owned P s'.mng := by
  rcases handleRequest_cases hstep with rfl | ⟨cmd, m₁, ret, hparse, -, hchange, hflush⟩
  · exact h
  have hf : FlushEffect P e.env.pmd m₁ s'.mng := flushCmd_effect hflush
  refine Owned.congr ?_ hf.comp
  cases hchange with
  | entry _ _ _ _ _ hflag =>
    obtain ⟨change, rfl⟩ := setComponentChangePort_eq_ok hflag
    exact h.congr rfl
  | start => exact h.update_of_ports_nil rfl (fun dir _ => ports_startedComp _ _ dir)
  | stop => exact h.update_of_ports_nil rfl (fun dir _ => CompInfo.ports_zero dir)
  | absent | listed => exact h
  | retag => exact h.congr (Function.update_eq_self _ _)
  | attach hact hid hport hcount hnew =>
    have hacc := parseWkCmd_port hparse
    have hlt := (sppwkGetLcoreId_eq_some P hid).1
    exact h.attach hlt hacc.dir (wkType_ne_none_of_checkPortCount hvf hcount)
      (fun hr => hnew (CompInfo.mem_ports.mp hr))
      (notMem_ports_of_accepted h hG hparse hact hid hport) rfl
  | detach hact hid hport =>
    exact h.detach (sppwkGetLcoreId_eq_some P hid).1 (parseWkCmd_port hparse).dir rfl

theorem owned_startUp : Owned P (startUp P).mng := by
  have hnil : ∀ i dir, ((startUp P).mng.comp i).ports dir = [] := by
    intro i dir
    cases dir <;> rfl
  refine ⟨fun i dir _ => ?_, fun dir _ i _ j _ r hr => ?_, fun i dir _ r hr => ?_⟩
  · rw [hnil]
    exact List.nodup_nil
  all_goals
    rw [hnil] at hr
    exact absurd hr (by simp)

/-- **Ownership is exclusive** in every state of a run of `spp_vf` in which no
request that skips the tests for ports in use names a port of another component. -/
theorem exclusive_of_run (P : Platform) (hvf : P.module = .vf) {h : List (State × Request)}
    {s : State} (hrun : Run (workerSystem P) h s) (hG : Guarded (OwnershipGuard P) h) :
    Exclusive P s.mng := by
  have howned : Owned P s.mng := by
    refine hrun.invariant (I := fun s => Owned P s.mng) ?_ ?_ hG
    · rintro _ rfl
      exact owned_startUp
    · intro s e s' hs hg hstep
      exact hs.step hvf hg hstep
  exact howned.exclusive

/-- No component but the one that a `port` request names has the port. -/
def namesOwn (P : Platform) (s : State) (e : Request) : Bool :=
  match parseWkCmd P s.mng e.str with
  | .ok (.ok (.port p)) =>
    match sppwkGetLcoreId P s.mng p.name,
      getSppwkPort P p.port.ifaceType p.port.ifaceNo p.port.queueNo with
    | some id, .ok (some r) => (List.range P.maxLcore).all fun i =>
      i = id ∨ r ∉ (s.mng.comp i).ports p.dir
    | _, _ => true
  | _ => true

theorem OwnershipGuard.of_namesOwn (h : namesOwn P s e = true) : OwnershipGuard P s e := by
  intro p id r hparse _ _ hid hport i hi hne
  rw [namesOwn, hparse] at h
  simp only [hid, hport, List.all_eq_true, List.mem_range, decide_eq_true_eq] at h
  exact (h i hi).resolve_left hne

/-- A merger gets a port, and gets it again with another tag; both requests have eight tokens.
A forwarder has ports of its own. -/
theorem exclusive_of_run_own_port :
    ∃ h s, Run (workerSystem (.sample .vf)) h s ∧
      h.map Prod.snd =
        [.plain "port add phy:0 rx m add_vlantag 20 0", .plain "port add phy:0 tx f",
          .plain "port add phy:1nq0 rx f", .plain "port add phy:0 rx m add_vlantag 10 0",
          .plain "component start f 3 forward", .plain "component start m 2 merge"] ∧
      ((s.mng.comp 0).ports .rx = [.phy 0 0] ∧ (s.mng.comp 1).ports .rx = [.phy 1 0] ∧
        (s.mng.comp 1).ports .tx = [.phy 0 0] ∧
        ((s.mng.iface (.phy 0 0)).portAttrs 0).vlantag.vid = 20) ∧ Exclusive (.sample .vf) s.mng := by
  obtain ⟨h, s, hrun, hmap, hG, hs⟩ := exists_guarded_run (namesOwn (.sample .vf))
    OwnershipGuard.of_namesOwn (startUp (.sample .vf)) (handleRequest (.sample .vf))
    [.plain "component start m 2 merge", .plain "component start f 3 forward",
      .plain "port add phy:0 rx m add_vlantag 10 0", .plain "port add phy:1nq0 rx f",
      .plain "port add phy:0 tx f", .plain "port add phy:0 rx m add_vlantag 20 0"]
    (fun s => (s.mng.comp 0).ports .rx = [.phy 0 0] ∧ (s.mng.comp 1).ports .rx = [.phy 1 0] ∧
      (s.mng.comp 1).ports .tx = [.phy 0 0] ∧
      ((s.mng.iface (.phy 0 0)).portAttrs 0).vlantag.vid = 20) (by decide +kernel)
  exact ⟨h, s, hrun, hmap, hs, exclusive_of_run (.sample .vf) rfl hrun hG⟩

/-- **A port with two owners.**  The second forwarder gets the rx queue of the first,
because its request has eight tokens. -/
theorem not_exclusive_of_full_length :
    ∃ h s, Run (workerSystem (.sample .vf)) h s ∧
      h.map Prod.snd =
        [.plain "port add phy:0 rx c2 add_vlantag 10 0", .plain "port add phy:0 rx c1",
          .plain "component start c2 3 forward", .plain "component start c1 2 forward"] ∧
      ¬ Exclusive (.sample .vf) s.mng := by
  obtain ⟨h, s, hrun, hmap, hs⟩ := exists_run_of_requests (.sample .vf)
    [.plain "component start c1 2 forward", .plain "component start c2 3 forward",
      .plain "port add phy:0 rx c1", .plain "port add phy:0 rx c2 add_vlantag 10 0"]
    (fun s => .phy 0 0 ∈ (s.mng.comp 0).ports .rx ∧ .phy 0 0 ∈ (s.mng.comp 1).ports .rx)
    (by decide +kernel)
  refine ⟨h, s, hrun, hmap, fun hex => ?_⟩
  exact absurd ((hex .rx (.inl rfl) (.phy 0 0)).2 0 (by decide) 1 (by decide) hs.1 hs.2) (by decide)

end SoftPatchPanel.Worker
