import SoftPatchPanel.Worker.CmdEffect

/-!
# Where components run

The component table, the per-lcore lists of ids, the search for a free slot by type
and the search by name are four views of one thing: which component runs on which
lcore.  `Placed` says that they agree.

The invariant behind it counts.  On either side of every lcore, an id is listed
once if its slot is in use and names that lcore, and not at all otherwise
(`Counted`).  A start appends an id that was listed nowhere, a stop erases the one
place of an id, and the exchange with the worker copies the side prepared by the
command thread to both.

Two requests break it.  A `component start` without a type fills a slot that still
counts as free, so that the next start takes the same slot again; and a flush that
stops at a device leaves the lists of the worker and the command thread different.
-/

namespace SoftPatchPanel.Worker

open Transition CountedArray
open Function (update update_self update_of_ne)

variable {P : Platform} {core : CoreInfo} {id l i l₀ : ℕ} {m m' : MngData} {E : PmdEnv}
  {f : CoreInfo → CoreInfo} {c : CompInfo}

/-! ## Lists of ids -/

theorem CoreInfo.ids_push (hnum : 0 ≤ core.num) (id : ℕ) :
    (core.push id).ids = core.ids ++ [id] := by
  obtain ⟨n, hn⟩ := Int.eq_ofNat_of_zero_le hnum
  have hsucc : (core.num + 1).toNat = core.num.toNat + 1 := by omega
  simp only [CoreInfo.ids, CoreInfo.push, hsucc]
  exact slice_update_succ _ _ _

theorem CoreInfo.ids_remove (hnd : core.ids.Nodup)
    (hmem : id ∈ core.ids) : (core.remove id).ids = core.ids.erase id := by
  obtain ⟨i, hi⟩ := exists_lastIdx_of_mem hmem
  have hpred : (core.num - 1).toNat = core.num.toNat - 1 := by omega
  simp only [CoreInfo.ids, CoreInfo.remove, delCompInfo_eq, delCompInfoOn, hpred, hi]
  exact ((exact_closeGap 0 hnd hi).present hmem).2.1

theorem CoreInfo.num_pos_of_mem (hmem : id ∈ core.ids) : 1 ≤ core.num := by
  obtain ⟨i, hi, -⟩ := mem_slice.mp hmem
  omega

/-! ## The invariant -/

/-- The slot is in use, by a component of the lcore. -/
def LivesOn (P : Platform) (m : MngData) (l i : ℕ) : Prop :=
  i < P.maxLcore ∧ (m.comp i).wkType ≠ .none ∧ (m.comp i).lcoreId = l

instance (m : MngData) (l i : ℕ) : Decidable (LivesOn P m l i) :=
  inferInstanceAs (Decidable (_ ∧ _ ∧ _))

/-- A list of ids shows exactly the components of the lcore, each once. -/
def Counted (P : Platform) (m : MngData) (l : ℕ) (core : CoreInfo) : Prop :=
  0 ≤ core.num ∧ ∀ i, core.ids.count i = if LivesOn P m l i then 1 else 0

/-- The four views agree, on both sides, and nothing is pending. -/
structure Consistent (P : Platform) (m : MngData) : Prop where
  named : ∀ i < P.maxLcore, (m.comp i).name ≠ [] ↔ (m.comp i).wkType ≠ .none
  lcore_lt : ∀ i < P.maxLcore, (m.comp i).wkType ≠ .none → (m.comp i).lcoreId < P.maxLcore
  counted : ∀ l side, Counted P m l ((m.core l).core side)
  settled : ∀ l, (m.core l).refIndex ≠ (m.core l).updIndex
  unchanged : ∀ l, m.changeCore l = false

/-- **Placement.**  A slot has a name exactly when it has a type; the id of such a
slot is run once by the lcore the slot names and by no other; and every id that is
run belongs to such a slot. -/
structure Placed (P : Platform) (m : MngData) : Prop where
  named : ∀ i < P.maxLcore, (m.comp i).name ≠ [] ↔ (m.comp i).wkType ≠ .none
  once : ∀ i < P.maxLcore, (m.comp i).wkType ≠ .none →
    (m.core (m.comp i).lcoreId).ref.ids.count i = 1 ∧
      ∀ l, l ≠ (m.comp i).lcoreId → i ∉ (m.core l).ref.ids
  live : ∀ l, ∀ i ∈ (m.core l).ref.ids, i < P.maxLcore ∧ (m.comp i).wkType ≠ .none

theorem Counted.mem_iff (h : Counted P m l core) : i ∈ core.ids ↔ LivesOn P m l i := by
  rw [← List.count_pos_iff, h.2 i]
  split
  all_goals
    rename_i hl
    simp [hl]

theorem Counted.nodup (h : Counted P m l core) : core.ids.Nodup := by
  rw [List.nodup_iff_count_le_one]
  intro i
  rw [h.2 i]
  split
  · exact le_refl 1
  · exact Nat.zero_le 1

theorem Consistent.placed (h : Consistent P m) : Placed P m := by
  have hmem : ∀ l i, i ∈ (m.core l).ref.ids ↔ LivesOn P m l i :=
    fun l i => (h.counted l (m.core l).refIndex).mem_iff
  refine ⟨h.named, fun i hi htype => ⟨?_, fun l hl hin => ?_⟩, fun l i hin => ?_⟩
  · have hcount := (h.counted (m.comp i).lcoreId (m.core (m.comp i).lcoreId).refIndex).2 i
    rwa [if_pos ⟨hi, htype, rfl⟩] at hcount
  · exact hl ((hmem l i).mp hin).2.2.symm
  · obtain ⟨hi, htype, -⟩ := (hmem l i).mp hin
    exact ⟨hi, htype⟩

/-! ## What the other commands leave alone -/

/-- Placement reads of a component only name, type and lcore. -/
theorem Consistent.congr (h : Consistent P m)
    (hcomp : ∀ i, (m'.comp i).name = (m.comp i).name ∧ (m'.comp i).wkType = (m.comp i).wkType ∧
      (m'.comp i).lcoreId = (m.comp i).lcoreId)
    (hcore : m'.core = m.core) (hchange : m'.changeCore = m.changeCore) : Consistent P m' := by
  have hlives : ∀ l i, LivesOn P m' l i ↔ LivesOn P m l i := by
    intro l i
    unfold LivesOn
    rw [(hcomp i).2.1, (hcomp i).2.2]
  refine ⟨fun i hi => ?_, fun i hi ht => ?_, fun l side => ⟨?_, fun i => ?_⟩, ?_, ?_⟩
  · rw [(hcomp i).1, (hcomp i).2.1]
    exact h.named i hi
  · rw [(hcomp i).2.1] at ht
    rw [(hcomp i).2.2]
    exact h.lcore_lt i hi ht
  · rw [hcore]
    exact (h.counted l side).1
  · rw [hcore, (h.counted l side).2 i]
    exact if_congr (hlives l i).symm rfl rfl
  · rw [hcore]
    exact h.settled
  · rw [hchange]
    exact h.unchanged

/-- With no lcore changed, a flush leaves placement alone, whether it succeeds or
not. -/
theorem Consistent.flush (h : Consistent P m) (hf : FlushEffect P E m m') : Consistent P m' := by
  have hcomp : ∀ i, (m'.comp i).name = (m.comp i).name ∧
      (m'.comp i).wkType = (m.comp i).wkType ∧ (m'.comp i).lcoreId = (m.comp i).lcoreId := by
    intro i
    rw [hf.comp]
    exact ⟨rfl, rfl, rfl⟩
  rcases hf.rest with ⟨-, hcore, hchange, -⟩ | ⟨-, hcore, hchange, -⟩
  · exact h.congr hcomp hcore hchange
  refine h.congr hcomp ?_ ?_
  · rw [hcore]
    funext l
    rw [exchanged, if_neg]
    rw [h.unchanged l]
    simp
  · rw [hchange]
    funext l
    rw [h.unchanged l]

/-! ## Starting and stopping -/

/-- One lcore has been edited on the side the command thread prepares, and the flush
has got past the ports. -/
structure EditFlushed (P : Platform) (m m' : MngData) (l₀ : ℕ) (f : CoreInfo → CoreInfo) :
    Prop where
  edited : ∀ side, (m'.core l₀).core side = f ((m.core l₀).core (m.core l₀).updIndex)
  settled : (m'.core l₀).refIndex ≠ (m'.core l₀).updIndex
  others : ∀ l, l ≠ l₀ → m'.core l = m.core l
  unchanged : ∀ l, m'.changeCore l = false

theorem editFlushed {m₁ : MngData} (h : Consistent P m)
    (hl₀ : l₀ < P.maxLcore) (hf : FlushEffect P E m₁ m')
    (hcore : m₁.core = update m.core l₀ ((m.core l₀).editUpd f))
    (hchange : m₁.changeCore = update m.changeCore l₀ true)
    (hiface : m₁.iface = m.iface) (hok : (updatePortInfo P E m).1 = .ok) :
    EditFlushed P m m' l₀ f := by
  rw [← updatePortInfo_congr hiface] at hok
  rcases hf.rest with ⟨hng, -⟩ | ⟨-, hcore', hchange', -⟩
  · exact absurd (hok.symm.trans hng) (by decide)
  have hne : ((m.core l₀).editUpd f).refIndex ≠ ((m.core l₀).editUpd f).updIndex := h.settled l₀
  obtain ⟨hset, -, hsides⟩ := CoreMngInfo.swap_spec _ hne
  have hl₀eq : m'.core l₀ =
      ((m.core l₀).editUpd f).requestSwap.workerSwap.copySides := by
    rw [hcore', exchanged, hchange, update_self, hcore, update_self]
    exact if_pos ⟨rfl, hl₀⟩
  refine ⟨fun side => ?_, ?_, fun l hl => ?_, fun l => ?_⟩
  · rw [hl₀eq, hsides side]
    simp [CoreMngInfo.editUpd]
  · rwa [hl₀eq]
  · rw [hcore', exchanged, hchange, update_of_ne hl, h.unchanged l, hcore,
      update_of_ne hl]
    exact if_neg (by simp)
  · rw [hchange']

theorem livesOn_update_of_ne (hcomp : m'.comp = update m.comp id c) (hi : i ≠ id) :
    LivesOn P m' l i ↔ LivesOn P m l i := by
  rw [LivesOn, LivesOn, hcomp, update_of_ne hi]

/-- One slot and the list of one lcore have changed together. -/
theorem Consistent.edit (h : Consistent P m) (hcomp : m'.comp = update m.comp id c)
    (hnamed : c.name ≠ [] ↔ c.wkType ≠ .none) (hlcore : c.wkType ≠ .none → c.lcoreId < P.maxLcore)
    (hbefore : ∀ l, l ≠ l₀ → ¬ LivesOn P m l id) (hafter : ∀ l, l ≠ l₀ → ¬ LivesOn P m' l id)
    (hcount : Counted P m' l₀ (f ((m.core l₀).core (m.core l₀).updIndex)))
    (he : EditFlushed P m m' l₀ f) : Consistent P m' := by
  refine ⟨fun i hi => ?_, fun i hi => ?_, fun l side => ?_, fun l => ?_, he.unchanged⟩
  · rcases eq_or_ne i id with rfl | hne
    · rwa [hcomp, update_self]
    · rw [hcomp, update_of_ne hne]
      exact h.named i hi
  · rcases eq_or_ne i id with rfl | hne
    · rwa [hcomp, update_self]
    · rw [hcomp, update_of_ne hne]
      exact h.lcore_lt i hi
  · rcases eq_or_ne l l₀ with rfl | hl
    · rwa [he.edited side]
    rw [he.others l hl]
    refine ⟨(h.counted l side).1, fun i => ?_⟩
    rw [(h.counted l side).2 i]
    rcases eq_or_ne i id with rfl | hne
    · rw [if_neg (hbefore l hl), if_neg (hafter l hl)]
    · exact if_congr (livesOn_update_of_ne hcomp hne).symm rfl rfl
  · rcases eq_or_ne l l₀ with rfl | hl
    · exact he.settled
    · rw [he.others l hl]
      exact h.settled l

/-- A start in a free slot, with a name and a type. -/
theorem Consistent.start (h : Consistent P m) {c : CmdComp}
    (hname : c.name ≠ []) (htype : c.wkType ≠ .none) (hcore : c.core < P.maxLcore)
    (hid : getFreeLcoreId P m = some id) (hcomp : m'.comp = (m.startComp c id).comp)
    (he : EditFlushed P m m' c.core (·.push id)) : Consistent P m' := by
  obtain ⟨hlt, hfree⟩ := getFreeLcoreId_eq_some P hid
  have hself : m'.comp id = startedComp c id := by
    rw [hcomp]
    exact update_self _ _ _
  -- the free slot was listed nowhere
  have hnone : ∀ l, ¬ LivesOn P m l id := fun l hl => hl.2.1 hfree
  refine h.edit hcomp (iff_of_true hname htype) (fun _ => hcore) (fun l _ => hnone l) ?_ ?_ he
  · rintro l hl ⟨-, -, hlc⟩
    rw [hself] at hlc
    exact hl hlc.symm
  have hold := h.counted c.core (m.core c.core).updIndex
  refine ⟨?_, fun i => ?_⟩
  · have hnum := hold.1
    simp only [CoreInfo.push]
    omega
  rw [CoreInfo.ids_push hold.1, List.count_append, hold.2 i]
  rcases eq_or_ne i id with rfl | hne
  · rw [if_neg (hnone _), if_pos ⟨hlt, by rw [hself]; exact htype, by rw [hself]; rfl⟩]
    simp
  · have hzero : List.count i [id] = 0 := List.count_eq_zero.mpr (by simpa using hne)
    rw [hzero, Nat.add_zero]
    exact if_congr (livesOn_update_of_ne hcomp hne).symm rfl rfl

/-- A stop of a component that is there. -/
theorem Consistent.stop (h : Consistent P m) (hlt : id < P.maxLcore)
    (htype : (m.comp id).wkType ≠ .none) (hcomp : m'.comp = (m.stopComp id).comp)
    (he : EditFlushed P m m' (m.comp id).lcoreId (·.remove id)) : Consistent P m' := by
  have hgone : ∀ l, ¬ LivesOn P m' l id := by
    rintro l ⟨-, ht, -⟩
    rw [hcomp] at ht
    exact ht (by simp [MngData.stopComp, CompInfo.zero])
  have hzero : CompInfo.zero.name ≠ [] ↔ CompInfo.zero.wkType ≠ .none :=
    iff_of_false (fun hn => hn rfl) (fun ht => ht rfl)
  refine h.edit hcomp hzero (fun ht => absurd rfl ht) (fun l hl hlv => hl hlv.2.2.symm)
    (fun l _ => hgone l) ?_ he
  have hold := h.counted (m.comp id).lcoreId (m.core (m.comp id).lcoreId).updIndex
  have hmem := hold.mem_iff.mpr (⟨hlt, htype, rfl⟩ : LivesOn P m _ id)
  refine ⟨?_, fun i => ?_⟩
  · have hpos := CoreInfo.num_pos_of_mem hmem
    simp only [CoreInfo.remove]
    omega
  rw [CoreInfo.ids_remove hold.nodup hmem]
  rcases eq_or_ne i id with rfl | hne
  · rw [List.count_erase_self, hold.2 i, if_pos ⟨hlt, htype, rfl⟩, if_neg (hgone _)]
  · rw [List.count_erase_of_ne hne, hold.2 i]
    exact if_congr (livesOn_update_of_ne hcomp hne).symm rfl rfl

/-! ## Runs -/

/-- A request that starts or stops a component names its type, if it is a start, and
its flush gets past the ports. -/
def PlacementGuard (P : Platform) (s : State) (e : Request) : Prop :=
  ∀ c, parseWkCmd P s.mng e.str = .ok (.ok (.worker c)) →
    ¬ ShortStart e.str ∧ (updatePortInfo P e.env.pmd s.mng).1 = .ok

theorem consistent_startUp : Consistent P (startUp P).mng := by
  refine ⟨fun i _ => ?_, fun i _ ht => absurd rfl ht, fun l side => ⟨le_refl _, fun i => ?_⟩,
    fun l => ?_, fun l => rfl⟩
  · exact iff_of_false (fun hn => hn rfl) (fun ht => ht rfl)
  · rw [if_neg (fun hl => hl.2.1 rfl)]
    rfl
  · exact (by decide : (0 : Side) ≠ 1)

theorem Consistent.editPort (h : Consistent P m) {r : PortRef}
    {port : PortInfo} {comp : CompInfo} (hcomp : comp.name = (m.comp id).name ∧
      comp.wkType = (m.comp id).wkType ∧ comp.lcoreId = (m.comp id).lcoreId) :
    Consistent P (m.editPort id r port comp) := by
  refine h.congr (fun i => ?_) rfl rfl
  rcases eq_or_ne i id with rfl | hne
  · simpa [MngData.editPort] using hcomp
  · simp [MngData.editPort, hne]

/-- A request that meets the guard keeps the four views consistent. -/
theorem Consistent.step {s s' : State} {e : Request} (h : Consistent P s.mng)
    (hG : PlacementGuard P s e) (hstep : handleRequest P s e = some s') : Consistent P s'.mng := by
  rcases handleRequest_cases hstep with rfl | ⟨cmd, m₁, ret, hparse, -, hchange, hflush⟩
  · exact h
  have hf : FlushEffect P e.env.pmd m₁ s'.mng := flushCmd_effect hflush
  cases hchange with
  | entry _ _ _ _ _ hflag =>
    obtain ⟨change, rfl⟩ := setComponentChangePort_eq_ok hflag
    refine Consistent.flush ?_ hf
    exact h.congr (fun _ => ⟨rfl, rfl, rfl⟩) rfl rfl
  | start hact hname hid hnum =>
    have hacc := parseWkCmd_worker hparse
    obtain ⟨hshort, hports⟩ := hG _ hparse
    exact h.start hacc.name_ne (hacc.type_ne hact hshort) hacc.core_lt hid hf.comp
      (editFlushed h hacc.core_lt hf rfl rfl rfl hports)
  | stop hact hid =>
    obtain ⟨-, hports⟩ := hG _ hparse
    obtain ⟨hlt, hname, hne⟩ := sppwkGetLcoreId_eq_some P hid
    have htype := (h.named _ hlt).mp (hname ▸ hne)
    exact h.stop hlt htype hf.comp (editFlushed h (h.lcore_lt _ hlt htype) hf rfl rfl rfl hports)
  | absent _ _ => exact h.flush hf
  | listed => exact h.flush hf
  | retag => exact (h.editPort ⟨rfl, rfl, rfl⟩).flush hf
  | attach => exact (h.editPort (setPorts_identity _ _ _ _)).flush hf
  | detach => exact (h.editPort (delPort_identity _ _ _)).flush hf

/-- **Placement.**  In every run in which each start names a type and each flush of
a `component` request gets past the ports, the four views of where components run
agree, in every state that is reached. -/
theorem placed_of_run (P : Platform) {h : List (State × Request)} {s : State}
    (hrun : Run (workerSystem P) h s) (hG : Guarded (PlacementGuard P) h) : Placed P s.mng := by
  have hcons : Consistent P s.mng := by
    refine hrun.invariant (I := fun s => Consistent P s.mng) ?_ ?_ hG
    · rintro _ rfl
      exact consistent_startUp
    · intro s e s' hs hg hstep
      exact hs.step hg hstep
  exact hcons.placed

theorem placed_of_run_forward :
    ∃ s, handleRequest (.sample .vf) (startUp (.sample .vf))
        (.plain "component start fwd 2 forward") = some s ∧ Placed (.sample .vf) s.mng := by
  have hsome : (handleRequest (.sample .vf) (startUp (.sample .vf))
      (.plain "component start fwd 2 forward")).isSome = true := by decide +kernel
  obtain ⟨s, hs⟩ := Option.isSome_iff_exists.mp hsome
  refine ⟨s, hs, placed_of_run (.sample .vf) (.snoc (.start rfl) hs) ?_⟩
  rw [guarded_cons]
  refine ⟨fun c _ => ⟨?_, by decide +kernel⟩, guarded_nil _⟩
  rintro ⟨args, htok, hlen⟩
  have hfive : (CString.tokens ' ' (Request.plain "component start fwd 2 forward").str).length =
      5 := by decide +kernel
  rw [htok, List.length_cons, List.length_cons] at hfive
  omega

/-- **A start without a type.**  The parser accepts it, its slot gets a name and no
type, and the next start takes the same slot: its id is then listed twice. -/
theorem not_placed_of_short_start :
    (∃ h s, Run (workerSystem (.sample .vf)) h s ∧
      h.map Prod.snd = [.plain "component start foo 2"] ∧ ¬ Placed (.sample .vf) s.mng) ∧
    ∃ h s, Run (workerSystem (.sample .vf)) h s ∧
      h.map Prod.snd =
        [.plain "component start bar 2 forward", .plain "component start foo 2"] ∧
      (s.mng.core 2).ref.ids = [0, 0] ∧ ¬ Placed (.sample .vf) s.mng := by
  constructor
  · obtain ⟨h, s, hrun, hmap, hs⟩ := exists_run_of_requests (.sample .vf)
      [.plain "component start foo 2"]
      (fun s => (s.mng.comp 0).name ≠ [] ∧ (s.mng.comp 0).wkType = .none) (by decide +kernel)
    exact ⟨h, s, hrun, hmap, fun hp => (hp.named 0 (by decide)).mp hs.1 hs.2⟩
  · obtain ⟨h, s, hrun, hmap, hids, htype, hlc⟩ := exists_run_of_requests (.sample .vf)
      [.plain "component start foo 2", .plain "component start bar 2 forward"]
      (fun s => (s.mng.core 2).ref.ids = [0, 0] ∧ (s.mng.comp 0).wkType ≠ .none ∧
        (s.mng.comp 0).lcoreId = 2) (by decide +kernel)
    refine ⟨h, s, hrun, hmap, hids, fun hp => ?_⟩
    have honce := (hp.once 0 (by decide) htype).1
    rw [hlc, hids] at honce
    exact absurd honce (by decide)

end SoftPatchPanel.Worker
