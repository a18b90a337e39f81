import SoftPatchPanel.Worker.CompPorts
import SoftPatchPanel.Worker.Placement

/-!
# Whom the command thread waits for

A flush waits twice.  `update_lcore_info` waits for every lcore whose `change_core`
flag is set, and `update_forwarder`, `update_mirror` and `update_classifier` wait for
the component whose table they have rebuilt.  Both waits end when a worker changes an
index: the worker of the lcore at the head of its loop, the worker that runs the
component when its turn comes.  A wait for an lcore without a worker, or for a
component that no worker runs, never ends.

`Answerable` is what keeps this from happening.  It is weaker than placement
(`Worker.Placement`): an id may be listed more than once, and a slot may have a name
without a type.  All that is needed is that a slot with a name is on the list that
the command thread prepares for the slot's lcore, that this lcore has a worker, and
that the two lists of an lcore differ only while its flag is set.

One request breaks it.  The lcore of a `component start` is tested for
`SPPWK_LCORE_UNUSED` only, and the lcore of the command thread itself passes that
test: `main` has set its status to idling, and nobody runs `slave_main` on it.
-/

namespace SoftPatchPanel.Worker

open Transition CountedArray
open Function (update update_self update_of_ne)

variable {P : Platform} {m m' : MngData} {id i l : ℕ} {E : PmdEnv} {r : PortRef} {port : PortInfo}
  {s : State} {e : Request}

/-! ## Lists of ids, with repetitions -/

/-- Deleting one occurrence of an id leaves the other ids in the list. -/
theorem CoreInfo.mem_ids_remove {core : CoreInfo} (hmem : id ∈ core.ids)
    (hi : i ∈ core.ids) (hne : i ≠ id) : i ∈ (core.remove id).ids := by
  obtain ⟨k, hk⟩ := exists_lastIdx_of_mem hmem
  obtain ⟨hlt, hval, -⟩ := lastIdx_eq_some hk
  obtain ⟨n, hn⟩ : ∃ n, core.num.toNat = n + 1 := ⟨core.num.toNat - 1, by omega⟩
  have hpred : (core.num - 1).toNat = n := by omega
  have hmax : max k n = n := by omega
  rw [CoreInfo.ids, hn] at hi
  rw [hn] at hk hlt
  simp only [CoreInfo.ids, CoreInfo.remove, delCompInfo, hpred, hn, hk, Option.getD_some, hmax]
  rw [slice_shiftDown (by omega) 0, List.mem_eraseIdx_iff_getElem]
  obtain ⟨j, hj, hji⟩ := mem_slice.mp hi
  have hjk : j ≠ k := by
    rintro rfl
    exact hne (hji.symm.trans hval)
  refine ⟨j, by simpa using hj, hjk, ?_⟩
  rwa [getElem_slice]

/-! ## The invariant -/

/-- The list that the command thread prepares for an lcore. -/
def CoreMngInfo.upd (c : CoreMngInfo) : CoreInfo := c.core c.updIndex

/-- Whoever is waited for in a flush will answer. -/
structure Answerable (P : Platform) (m : MngData) : Prop where
  settled : ∀ l, (m.core l).refIndex ≠ (m.core l).updIndex
  status : ∀ l, (m.core l).status = startStatus P l
  flagged : ∀ l, m.changeCore l = true → P.slave l = true
  synced : ∀ l, m.changeCore l = false → (m.core l).ref = (m.core l).upd
  num_nonneg : ∀ l, 0 ≤ (m.core l).upd.num
  typed : ∀ i < P.maxLcore, (m.comp i).wkType ≠ .none → (m.comp i).name ≠ []
  marked : ∀ i < P.maxLcore, m.changeComp i = true → (m.comp i).name ≠ []
  listed : ∀ i < P.maxLcore, (m.comp i).name ≠ [] → (m.comp i).compId = i ∧
    P.slave (m.comp i).lcoreId = true ∧ i ∈ (m.core (m.comp i).lcoreId).upd.ids

theorem answerable_startUp : Answerable P (startUp P).mng where
  settled _ := (by decide : (0 : Side) ≠ 1)
  status _ := rfl
  flagged _ hl := absurd hl (by simp [startUp, initMngData])
  synced _ _ := rfl
  num_nonneg _ := le_refl _
  typed _ _ ht := absurd rfl ht
  marked _ _ hm := absurd hm (by simp [startUp, initMngData])
  listed _ _ hn := absurd rfl hn

/-! ## The flush -/

section

variable (h : Answerable P m)
include h

/-- After the exchange both sides of an lcore hold the list that was prepared for
it. -/
theorem Answerable.exchanged (l : ℕ) :
    (exchanged P m l).refIndex ≠ (exchanged P m l).updIndex ∧
      (exchanged P m l).status = (m.core l).status ∧
      (exchanged P m l).ref = (m.core l).upd ∧ (exchanged P m l).upd = (m.core l).upd := by
  unfold Worker.exchanged
  split
  · obtain ⟨hne, hstatus, hsides⟩ := CoreMngInfo.swap_spec (m.core l) (h.settled l)
    exact ⟨hne, hstatus, hsides _, hsides _⟩
  rename_i hnot
  have hfalse : m.changeCore l = false := by
    by_contra htrue
    rw [Bool.not_eq_false] at htrue
    exact hnot ⟨htrue, P.slave_lt l (h.flagged l htrue)⟩
  exact ⟨h.settled l, rfl, h.synced l hfalse, rfl⟩

theorem Answerable.flush (hf : FlushEffect P E m m') : Answerable P m' := by
  rcases hf.rest with ⟨-, hcore, hchange, hcomp⟩ | ⟨-, hcore, hchange, hcomp⟩
  · refine ⟨?_, ?_, ?_, ?_, ?_, ?_, ?_, ?_⟩
    · rw [hcore]
      exact h.settled
    · rw [hcore]
      exact h.status
    · rw [hchange]
      exact h.flagged
    · rw [hcore, hchange]
      exact h.synced
    · rw [hcore]
      exact h.num_nonneg
    · rw [hf.comp]
      exact h.typed
    · rw [hf.comp, hcomp]
      exact h.marked
    · rw [hf.comp, hcore]
      exact h.listed
  · have hex (l : ℕ) := h.exchanged l
    refine ⟨fun l => ?_, fun l => ?_, fun l hl => ?_, fun l _ => ?_, fun l => ?_, ?_,
      fun i _ hi => ?_, fun i hi hname => ?_⟩
    · rw [hcore]
      exact (hex l).1
    · rw [hcore, (hex l).2.1]
      exact h.status l
    · rw [hchange] at hl
      exact absurd hl (by simp)
    · rw [hcore, (hex l).2.2.1, (hex l).2.2.2]
    · rw [hcore, (hex l).2.2.2]
      exact h.num_nonneg l
    · rw [hf.comp]
      exact h.typed
    · rw [hcomp] at hi
      exact absurd hi (by simp)
    · rw [hf.comp] at hname ⊢
      rw [hcore, (hex _).2.2.2]
      exact h.listed i hi hname

/-! ## The first step -/

/-- Changes of ports and of flags of components that have a name. -/
theorem Answerable.congr
    (hcomp : ∀ i, (m'.comp i).name = (m.comp i).name ∧ (m'.comp i).wkType = (m.comp i).wkType ∧
      (m'.comp i).lcoreId = (m.comp i).lcoreId ∧ (m'.comp i).compId = (m.comp i).compId)
    (hcore : m'.core = m.core) (hchange : m'.changeCore = m.changeCore)
    (hmarked : ∀ i < P.maxLcore, m'.changeComp i = true →
      m.changeComp i = true ∨ (m.comp i).name ≠ []) : Answerable P m' := by
  refine ⟨?_, ?_, ?_, ?_, ?_, fun i hi ht => ?_, fun i hi hm => ?_, fun i hi hn => ?_⟩
  · rw [hcore]
    exact h.settled
  · rw [hcore]
    exact h.status
  · rw [hchange]
    exact h.flagged
  · rw [hcore, hchange]
    exact h.synced
  · rw [hcore]
    exact h.num_nonneg
  · rw [(hcomp i).2.1] at ht
    rw [(hcomp i).1]
    exact h.typed i hi ht
  · rw [(hcomp i).1]
    exact (hmarked i hi hm).elim (h.marked i hi) id
  · rw [(hcomp i).1] at hn
    rw [(hcomp i).2.2.2, (hcomp i).2.2.1, hcore]
    exact h.listed i hi hn

/-- One slot and the prepared list of one lcore change together. -/
theorem Answerable.edit {l₀ : ℕ} {c : CompInfo} {mark : Bool}
    {f : CoreInfo → CoreInfo} (hcomp : m'.comp = update m.comp id c)
    (hcore : m'.core = update m.core l₀ ((m.core l₀).editUpd f))
    (hchange : m'.changeCore = update m.changeCore l₀ true)
    (hmark : m'.changeComp = update m.changeComp id mark)
    (hslave : P.slave l₀ = true) (hnum : 0 ≤ (f (m.core l₀).upd).num)
    (htype : c.wkType ≠ .none → c.name ≠ []) (hname : mark = true → c.name ≠ [])
    (hnew : c.name ≠ [] → c.compId = id ∧ c.lcoreId = l₀ ∧ id ∈ (f (m.core l₀).upd).ids)
    (hkeep : ∀ i ∈ (m.core l₀).upd.ids, i ≠ id → i ∈ (f (m.core l₀).upd).ids) :
    Answerable P m' := by
  have hupd : (m'.core l₀).upd = f (m.core l₀).upd := by
    rw [hcore, update_self]
    exact update_self _ _ _
  have hother {l : ℕ} (hl : l ≠ l₀) : m'.core l = m.core l := by
    rw [hcore, update_of_ne hl]
  have hself : m'.comp id = c := by
    rw [hcomp, update_self]
  have hothers {i : ℕ} (hi : i ≠ id) : m'.comp i = m.comp i := by
    rw [hcomp, update_of_ne hi]
  refine ⟨fun l => ?_, fun l => ?_, fun l hl => ?_, fun l hl => ?_, fun l => ?_,
    fun i hi ht => ?_, fun i hi hm => ?_, fun i hi hn => ?_⟩
  · rcases eq_or_ne l l₀ with rfl | hne
    · rw [hcore, update_self]
      exact h.settled l
    · rw [hother hne]
      exact h.settled l
  · rcases eq_or_ne l l₀ with rfl | hne
    · rw [hcore, update_self]
      exact h.status l
    · rw [hother hne]
      exact h.status l
  · rcases eq_or_ne l l₀ with rfl | hne
    · exact hslave
    · rw [hchange, update_of_ne hne] at hl
      exact h.flagged l hl
  · rcases eq_or_ne l l₀ with rfl | hne
    · rw [hchange, update_self] at hl
      cases hl
    · rw [hchange, update_of_ne hne] at hl
      rw [hother hne]
      exact h.synced l hl
  · rcases eq_or_ne l l₀ with rfl | hne
    · rwa [hupd]
    · rw [hother hne]
      exact h.num_nonneg l
  · rcases eq_or_ne i id with rfl | hne
    · rw [hself] at ht ⊢
      exact htype ht
    · rw [hothers hne] at ht ⊢
      exact h.typed i hi ht
  · rcases eq_or_ne i id with rfl | hne
    · rw [hmark, update_self] at hm
      rw [hself]
      exact hname hm
    · rw [hmark, update_of_ne hne] at hm
      rw [hothers hne]
      exact h.marked i hi hm
  rcases eq_or_ne i id with rfl | hne
  · rw [hself] at hn ⊢
    obtain ⟨hid, hl, hmem⟩ := hnew hn
    rw [hl, hupd]
    exact ⟨hid, hslave, hmem⟩
  rw [hothers hne] at hn ⊢
  obtain ⟨hid, hsl, hmem⟩ := h.listed i hi hn
  refine ⟨hid, hsl, ?_⟩
  rcases eq_or_ne (m.comp i).lcoreId l₀ with hl | hl
  · rw [hl] at hmem ⊢
    rw [hupd]
    exact hkeep i hmem hne
  · rwa [hother hl]

theorem Answerable.editPort {comp : CompInfo} (hname : (m.comp id).name ≠ [])
    (hcomp : comp.name = (m.comp id).name ∧ comp.wkType = (m.comp id).wkType ∧
      comp.lcoreId = (m.comp id).lcoreId) (hid : comp.compId = (m.comp id).compId) :
    Answerable P (m.editPort id r port comp) := by
  refine h.congr (fun i => ?_) rfl rfl fun i _ hm => ?_
  · show (update m.comp id comp i).name = _ ∧ (update m.comp id comp i).wkType = _ ∧
      (update m.comp id comp i).lcoreId = _ ∧ (update m.comp id comp i).compId = _
    rcases eq_or_ne i id with rfl | hne
    · rw [update_self]
      exact ⟨hcomp.1, hcomp.2.1, hcomp.2.2, hid⟩
    · rw [update_of_ne hne]
      exact ⟨rfl, rfl, rfl, rfl⟩
  · rcases eq_or_ne i id with rfl | hne
    · exact .inr hname
    · refine .inl ?_
      have hm : update m.changeComp id true i = true := hm
      rwa [update_of_ne hne] at hm

/-- The component that `set_component_change_port` flags has a name. -/
theorem Answerable.setComponentChangePort {attrs : ClsAttrs} {dir : PortDir}
    (hflag : setComponentChangePort P (m.setClsAttrs r attrs) port dir = .ok m') :
    Answerable P m' := by
  obtain ⟨o, hused, hflag⟩ := bind_eq_ok.mp hflag
  cases o with
  | none =>
    cases hflag
    exact h.congr (fun _ => ⟨rfl, rfl, rfl, rfl⟩) rfl rfl fun _ _ hm => .inl hm
  | some id =>
    cases hflag
    refine h.congr (fun _ => ⟨rfl, rfl, rfl, rfl⟩) rfl rfl fun i hi hm => ?_
    obtain ⟨place, -, hused⟩ := bind_eq_ok.mp hused
    cases place with
    | none => cases hused
    | some r' =>
      obtain ⟨-, htype, -⟩ := usedBy_eq_some P (Except.ok.inj hused)
      rcases eq_or_ne i id with rfl | hne
      · exact .inr (h.typed i hi htype)
      · refine .inl ?_
        have hm : update m.changeComp id true i = true := hm
        rwa [update_of_ne hne] at hm

end

/-- The lcore of a `component start` that finds a free slot is not the one of the
command thread. -/
def AnswerGuard (P : Platform) (s : State) (e : Request) : Prop :=
  ∀ c, parseWkCmd P s.mng e.str = .ok (.ok (.worker c)) → c.wkAction = .start →
    c.core = P.master → getFreeLcoreId P s.mng = none

/-- An lcore that is in use and is not the one of the command thread has a worker. -/
theorem Answerable.slave (h : Answerable P m) (hstatus : (m.core l).status ≠ .unused)
    (hne : l ≠ P.master) : P.slave l = true := by
  by_contra hno
  rw [h.status l, startStatus, if_neg hno, if_neg hne] at hstatus
  exact hstatus rfl

/-- **The first step of a command keeps everybody answerable.** -/
theorem Answerable.change {cmd : CmdAttrs} (h : Answerable P s.mng)
    (hG : AnswerGuard P s e) (hparse : parseWkCmd P s.mng e.str = .ok (.ok cmd))
    (hchange : Change P s.mng cmd m') : Answerable P m' := by
  cases hchange with
  | entry _ _ _ _ _ hflag => exact h.setComponentChangePort hflag
  | @start c id hact hname hid hnum hstatus =>
    have hacc := parseWkCmd_worker hparse
    have hne : c.core ≠ P.master := by
      intro hmaster
      exact absurd (hid.symm.trans (hG c hparse hact hmaster)) (by simp)
    have hids := CoreInfo.ids_push hnum id
    refine h.edit rfl rfl rfl rfl (h.slave hstatus hne) ?_ (fun _ => hacc.name_ne)
      (fun _ => hacc.name_ne) (fun _ => ⟨rfl, rfl, ?_⟩) fun i hi _ => ?_
    · have hpush : ((s.mng.core c.core).upd.push id).num = (s.mng.core c.core).upd.num + 1 := rfl
      have hpos := h.num_nonneg c.core
      omega
    · exact hids ▸ List.mem_append_right _ (List.mem_singleton_self id)
    · exact hids ▸ List.mem_append_left _ hi
  | @stop c id hact hid =>
    obtain ⟨hlt, hname, hne⟩ := sppwkGetLcoreId_eq_some P hid
    obtain ⟨-, hslave, hmem⟩ := h.listed id hlt (hname ▸ hne)
    refine h.edit rfl rfl rfl rfl hslave ?_ (fun ht => absurd rfl ht) (fun ht => by cases ht)
      (fun hn => absurd rfl hn) fun i hi hne => CoreInfo.mem_ids_remove hmem hi hne
    have hpos := CoreInfo.num_pos_of_mem hmem
    have hremove : ((s.mng.core (s.mng.comp id).lcoreId).upd.remove id).num =
      (s.mng.core (s.mng.comp id).lcoreId).upd.num - 1 := rfl
    omega
  | absent | listed => exact h
  | retag _ hid =>
    obtain ⟨-, hname, hne⟩ := sppwkGetLcoreId_eq_some P hid
    exact h.editPort (hname ▸ hne) ⟨rfl, rfl, rfl⟩ rfl
  | attach _ hid =>
    obtain ⟨-, hname, hne⟩ := sppwkGetLcoreId_eq_some P hid
    exact h.editPort (hname ▸ hne) (setPorts_identity _ _ _ _) (addPort_compId _ _ _)
  | detach _ hid =>
    obtain ⟨-, hname, hne⟩ := sppwkGetLcoreId_eq_some P hid
    exact h.editPort (hname ▸ hne) (delPort_identity _ _ _) (delPort_compId _ _ _)

theorem Answerable.step {s' : State} (h : Answerable P s.mng)
    (hG : AnswerGuard P s e) (hstep : handleRequest P s e = some s') : Answerable P s'.mng := by
  rcases handleRequest_cases hstep with rfl | ⟨cmd, m₁, ret, hparse, -, hchange, hflush⟩
  · exact h
  · exact (h.change hG hparse hchange).flush (flushCmd_effect hflush)

theorem answerable_of_run {h : List (State × Request)}
    (hrun : Run (workerSystem P) h s) (hG : Guarded (AnswerGuard P) h) : Answerable P s.mng := by
  refine hrun.invariant (I := fun s => Answerable P s.mng) ?_ ?_ hG
  · rintro _ rfl
    exact answerable_startUp
  · intro s e s' hs hg hstep
    exact hs.step hg hstep

/-! ## The waits of a flush -/

/-- **Every wait of a flush is answered.**  When the lcores are exchanged, every lcore
whose flag is set has a worker; and when the tables are rebuilt, every component whose
flag is set is on the list that some worker runs. -/
def WaitsAnswered (P : Platform) (E : Env) (s : State) : Prop :=
  ∀ m, updatePortInfo P E.pmd s.mng = (.ok, m) →
    (∀ l, m.changeCore l = true → P.slave l = true) ∧
    ∀ m', updateLcoreInfo P m = .ok m' → ∀ i < P.maxLcore, m'.changeComp i = true →
      ∃ l, P.slave l = true ∧ (m'.comp i).compId ∈ (m'.core l).ref.ids

theorem Answerable.iface (h : Answerable P m) (iface : PortRef → PortInfo) :
    Answerable P { m with iface := iface } :=
  h.congr (fun _ => ⟨rfl, rfl, rfl, rfl⟩) rfl rfl fun _ _ hm => .inl hm

theorem Answerable.ports (h : Answerable P m) {ret : Ret}
    (hm : updatePortInfo P E m = (ret, m')) : Answerable P m' := by
  obtain ⟨iface, -, heq⟩ := updatePortInfo_spec P E m
  rw [hm] at heq
  rw [show m' = _ from heq]
  exact h.iface iface

theorem Answerable.run_ids (h : Answerable P m) (hi : i < P.maxLcore)
    (hmark : m.changeComp i = true) :
    ∃ l, P.slave l = true ∧ (m.comp i).compId ∈ (Worker.exchanged P m l).ref.ids := by
  obtain ⟨hid, hslave, hmem⟩ := h.listed i hi (h.marked i hi hmark)
  refine ⟨_, hslave, ?_⟩
  rwa [(h.exchanged _).2.2.1, hid]

theorem Answerable.waitsAnswered (h : Answerable P s.mng) (E : Env) : WaitsAnswered P E s := by
  intro m hm
  have hports := h.ports hm
  refine ⟨hports.flagged, fun m' hm' i hi hmark => ?_⟩
  obtain rfl := updateLcoreInfo_eq_ok hm'
  exact hports.run_ids hi hmark

theorem served_of_mem {m : MngData} (hslave : P.slave l = true)
    (hmem : id ∈ (m.core l).ref.ids) : served P m id = true := by
  rw [served, List.any_eq_true]
  refine ⟨l, List.mem_range.mpr (P.slave_lt l hslave), ?_⟩
  rwa [hslave, Bool.true_and, List.contains_iff_mem]

/-- The lcores are exchanged. -/
theorem Answerable.updateLcoreInfo_eq (h : Answerable P m) :
    updateLcoreInfo P m = .ok { m with core := Worker.exchanged P m } := by
  rw [updateLcoreInfo, if_neg]
  · rfl
  rw [unanswered, List.any_eq_true]
  rintro ⟨l, -, hl⟩
  rw [Bool.and_eq_true, Bool.not_eq_true'] at hl
  exact absurd ((h.flagged l hl.1).symm.trans hl.2) (by decide)

/-- The tables are rebuilt without a wait that nobody answers. -/
theorem updateCompInfo_ne_blocked {E : Env} {l : List ℕ}
    (hserved : ∀ i ∈ l, s.mng.changeComp i = true → served P s.mng (s.mng.comp i).compId = true) :
    updateCompInfo P E l s ≠ .error .blocked := by
  induction l generalizing s with
  | nil =>
    intro h
    cases h
  | cons cnt rest ih =>
    rw [updateCompInfo]
    split
    · rename_i hmark
      have hone : updateOneComp P E s cnt ≠ .error .blocked := by
        rw [updateOneComp_eq, sppwkUpdatePortDir, hserved cnt List.mem_cons_self hmark]
        split <;> simp [bind, Except.bind]
      cases hr : updateOneComp P E s cnt with
      | error f =>
        intro h
        have hf : f = .blocked := Except.error.inj h
        exact hone (hf ▸ hr)
      | ok r =>
        obtain ⟨ret, s'⟩ := r
        cases ret with
        | ng =>
          intro h
          cases h
        | ok =>
          show updateCompInfo P E rest s' ≠ _
          refine ih fun i hi hmark' => ?_
          rw [updateOneComp_mng hr] at hmark' ⊢
          exact hserved i (List.mem_cons_of_mem _ hi) hmark'
    · exact ih fun i hi => hserved i (List.mem_cons_of_mem _ hi)

/-- **A flush comes to its end.** -/
theorem Answerable.flushCmd_ne_blocked (h : Answerable P s.mng) (E : Env) :
    flushCmd P E s ≠ .error .blocked := by
  unfold flushCmd
  split
  · intro hb
    cases hb
  rename_i m hm
  have hports := h.ports hm
  rw [hports.updateLcoreInfo_eq]
  show (updateCompInfo P E _ _ >>= _) ≠ _
  have hcomp : updateCompInfo P E (List.range P.maxLcore)
      { s with mng := { m with core := Worker.exchanged P m } } ≠ .error .blocked := by
    refine updateCompInfo_ne_blocked fun i hi hmark => ?_
    obtain ⟨l, hslave, hmem⟩ := hports.run_ids (List.mem_range.mp hi) hmark
    exact served_of_mem hslave hmem
  cases hr : updateCompInfo P E (List.range P.maxLcore)
      { s with mng := { m with core := Worker.exchanged P m } } with
  | error f =>
    intro hb
    have hf : f = .blocked := Except.error.inj hb
    exact hcomp (hf ▸ hr)
  | ok r =>
    intro hb
    cases hb

/-- **The command thread only waits for workers that will answer.**  In every run in
which no component is started on the lcore of the command thread, the flush of every
further request of that kind waits only for lcores that have a worker and for
components that a worker runs, and comes to its end. -/
theorem waitsAnswered_of_run (P : Platform) {h : List (State × Request)} {s : State}
    (hrun : Run (workerSystem P) h s) (hG : Guarded (AnswerGuard P) h) (e : Request)
    (he : AnswerGuard P s e) {cmd : CmdAttrs} (hparse : parseWkCmd P s.mng e.str = .ok (.ok cmd))
    (hhand : handled P.module cmd = true) {s₁ : State}
    (hchange : changeMng P s cmd = .ok (.ok, s₁)) :
    WaitsAnswered P e.env s₁ ∧ flushCmd P e.env s₁ ≠ .error .blocked := by
  have hs := answerable_of_run hrun hG
  rcases changeMng_cases (accepted_of_parse hparse) hhand hchange with
    ⟨hng, -⟩ | ⟨-, m₁, rfl, hc⟩
  · cases hng
  · have hm₁ : Answerable P m₁ := hs.change he hparse hc
    exact ⟨Answerable.waitsAnswered (s := { s with mng := m₁ }) hm₁ e.env,
      Answerable.flushCmd_ne_blocked (s := { s with mng := m₁ }) hm₁ e.env⟩

theorem waitsAnswered_of_run_forward :
    ∃ cmd s₁, changeMng (.sample .vf) (startUp (.sample .vf)) cmd = .ok (.ok, s₁) ∧
      WaitsAnswered (.sample .vf) (Request.plain "component start fwd 2 forward").env s₁ ∧
      flushCmd (.sample .vf) (Request.plain "component start fwd 2 forward").env s₁ ≠
        .error .blocked := by
  have hparse : parseWkCmd (.sample .vf) (startUp (.sample .vf)).mng
      (Request.plain "component start fwd 2 forward").str =
        .ok (.ok (.worker ⟨.start, "fwd", 2, .fwd⟩)) := by decide +kernel
  have hchange : changeMng (.sample .vf) (startUp (.sample .vf))
      (.worker ⟨.start, "fwd", 2, .fwd⟩) = .ok (.ok, { startUp (.sample .vf) with
        mng := (startUp (.sample .vf)).mng.startComp ⟨.start, "fwd", 2, .fwd⟩ 0 }) := rfl
  refine ⟨_, _, hchange, waitsAnswered_of_run (.sample .vf) (.start rfl) (guarded_nil _)
    (.plain "component start fwd 2 forward") ?_ hparse (by decide) hchange⟩
  intro c hc _ hmaster
  rw [hparse] at hc
  cases hc
  exact absurd hmaster (by decide)

/-- **A component on the lcore of the command thread.**  The start is accepted and
changes the tables, the flag of the lcore is set although no worker runs there, and
the flush never returns. -/
theorem not_waitsAnswered_of_master :
    ∃ cmd s₁, parseWkCmd (.sample .vf) (startUp (.sample .vf)).mng
        (Request.plain "component start fwd 1 forward").str = .ok (.ok cmd) ∧
      handled .vf cmd = true ∧
      changeMng (.sample .vf) (startUp (.sample .vf)) cmd = .ok (.ok, s₁) ∧
      ¬ WaitsAnswered (.sample .vf) (Request.plain "component start fwd 1 forward").env s₁ ∧
      flushCmd (.sample .vf) (Request.plain "component start fwd 1 forward").env s₁ =
        .error .blocked := by
  refine ⟨.worker ⟨.start, "fwd", 1, .fwd⟩, _, by decide +kernel, by decide, rfl, ?_, ?_⟩
  · intro hwaits
    obtain ⟨hlcore, -⟩ := hwaits _ (by rfl)
    exact absurd (hlcore 1 rfl) (by decide)
  · rfl

end SoftPatchPanel.Worker
