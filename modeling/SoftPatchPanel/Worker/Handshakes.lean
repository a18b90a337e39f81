import SoftPatchPanel.Foundation.Progress
import SoftPatchPanel.Vf.Forward
import SoftPatchPanel.Worker.CmdEffect

/-!
# The exchange of lcores, forwarders and mirrors

Three tables of a worker process have two sides: the list of component ids of an lcore
(`struct core_mng_info`), and the paths of forwarders and mergers (`struct forward_info`) and of
mirrors (`struct mirror_info`).  All are instances of `Foundation.Handover`.

* The lists of lcores are edited by `update_comp`, and `update_lcore_info` hands over those of
  all lcores whose `change_core` flag is set.  `slave_main` keeps its pointer to the list until
  it changes its index.  At the end the command thread copies the list to its own side.
* `update_forwarder` and `update_mirror` build the path they hand over, and nothing is done with
  the side that is left.  The worker takes its pointer anew in every iteration.

In contrast to the classifiers (`Vf.UpdateHandshake`) the indices are different from the start,
so that no run has to be excluded, and every call comes to its end (`handshakes_return`).

The functions of the model in which an exchange is one step, `exchanged` and `PathInfo.publish`,
are what interleavings come to (`exchanged_of_returned`, `publish_reaches`).
-/

namespace SoftPatchPanel.Worker

open Vf Transition
open Handover (Buffer Design Call)
open Function (update update_self update_eq_self update_idem)

/-- The two sides of an lcore. -/
def CoreMngInfo.buffer (c : CoreMngInfo) : Buffer CoreInfo := ⟨c.core, c.refIndex, c.updIndex⟩

/-- The two sides of a path. -/
def pathBuffer (g : PathInfo) : Buffer Path := ⟨g.path, g.refIndex, g.updIndex⟩

/-- `update_lcore_info` and `slave_main`. -/
def coreDesign : Design CoreInfo where
  Edit a b := ∃ id, b = a.push id ∨ b = a.remove id
  settle _ a := a
  ownCall := false
  keepsPointer := true

/-- The update of a path and its worker. -/
def pathDesign (build : CString → WorkerType → List PortInfo → List PortInfo → Path) :
    Design Path where
  Edit _ b := ∃ name wkType rx tx, b = build name wkType rx tx
  settle a _ := a
  ownCall := true
  keepsPointer := false

/-- The lcores, from `init_core_info` on. -/
def coreHandshake (P : Platform) : System (Handover.State ℕ CoreInfo) (Option ℕ) :=
  Handover.system coreDesign fun l => (initCoreInfo P l).buffer

/-- The forwarders and mergers, from `init_forwarder` on. -/
def forwardHandshake : System (Handover.State ℕ Path) (Option ℕ) :=
  Handover.system (pathDesign forwardPath) fun _ => pathBuffer .init

/-- The mirrors, from `mirror_proc_init` on. -/
def mirrorHandshake : System (Handover.State ℕ Path) (Option ℕ) :=
  Handover.system (pathDesign mirrorPath) fun _ => pathBuffer .init

/-! ## One step and many -/

/-- The exchange of an lcore. -/
theorem buffer_exchange {c : CoreMngInfo} (h : c.refIndex ≠ c.updIndex) :
    c.requestSwap.workerSwap.copySides.buffer = c.buffer.handed coreDesign.settle := by
  have hupd : c.refIndex + 1 = c.updIndex := DoubleBuffer.add_one_of_ne h.symm
  have hswap : c.requestSwap.workerSwap = { c with refIndex := c.updIndex, updIndex := c.refIndex } := by
    unfold CoreMngInfo.workerSwap CoreMngInfo.requestSwap
    simp only [if_true, hupd]
  rw [hswap]
  rfl

/-- The exchange of a path, from the state in which the path has been built. -/
theorem pathBuffer_publish {g : PathInfo} (h : g.refIndex ≠ g.updIndex) (path : Path)
    (build : CString → WorkerType → List PortInfo → List PortInfo → Path) :
    pathBuffer (g.publish path) =
      (Buffer.mk (update g.path g.updIndex path) g.refIndex g.updIndex).handed
        (pathDesign build).settle := by
  have hupd : g.refIndex + 1 = g.updIndex := DoubleBuffer.add_one_of_ne h.symm
  simp only [pathBuffer, PathInfo.publish, Buffer.handed, pathDesign, update_eq_self, hupd]

section

variable {build : CString → WorkerType → List PortInfo → List PortInfo → Path}
  {init : ℕ → Buffer Path}

/-- **The update of a path** reaches its end, with the path published, if the worker moves while
the command thread waits. -/
theorem publish_reaches (s : Handover.State ℕ Path) {g : PathInfo} {id : ℕ} {held : Side}
    (hfree : s.command.Free) (hat : s.worker id = .top held) (hbuf : s.buf id = pathBuffer g)
    (hne : g.refIndex ≠ g.updIndex) (name : CString) (wkType : WorkerType) (rx tx : List PortInfo) :
    ∃ old, Reaches (Handover.system (pathDesign build) init) (fun _ _ => True) s
      ⟨update s.buf id (pathBuffer (g.publish (build name wkType rx tx))),
        .returned ⟨old, [(id, build name wkType rx tx)]⟩, update s.worker id .enter⟩ := by
  refine ⟨update s.buf id { s.buf id with
    side := update (s.buf id).side (s.buf id).upd (build name wkType rx tx) }, ?_⟩
  refine .head ⟨none, trivial, .edit id hfree⟩ ?_
  refine .head ⟨none, trivial, .write rfl ⟨name, wkType, rx, tx, rfl⟩⟩ ?_
  refine .head ⟨none, trivial, .handOver rfl rfl⟩ ?_
  refine .trans (Handover.reaches_returned _ rfl rfl hat ?_) ?_
  · simp only [update_self, hbuf]
    exact hne
  · rw [pathBuffer_publish hne _ build]
    simp only [update_idem, update_self, hbuf]
    exact .refl

/-- **The index test of a worker** is made of the worker's steps, wherever the command thread
is. -/
theorem changeForwardIndex_reaches (s : Handover.State ℕ Path) {w : FwdWorker} {id : ℕ}
    {held : Side} (hat : s.worker id = .top held) (hbuf : s.buf id = pathBuffer w.info) :
    Reaches (Handover.system (pathDesign build) init) (fun _ _ => True) s
      { s with
        buf := update s.buf id (pathBuffer (changeForwardIndex w).info)
        worker := update s.worker id .enter } := by
  unfold changeForwardIndex
  split
  · rename_i heq
    have hswap : Reaches (Handover.system (pathDesign build) init) (fun _ _ => True) s _ :=
      Handover.reaches_swap s hat (by rw [hbuf]; exact heq)
    rwa [hbuf] at hswap
  rename_i hne
  refine .head ⟨some id, trivial, .top hat⟩ ?_
  refine .head ⟨some id, trivial, .differ (update_self ..) (by rw [hbuf]; exact hne)⟩ ?_
  rw [← hbuf, update_eq_self]
  simp only [update_idem]
  exact .refl

end

/-- **`update_lcore_info`**, for the lcores whose flags are set: when it has returned, the lcores
are as in the model in which the exchange is one step. -/
theorem exchanged_of_returned {P : Platform} {h : List (Handover.State ℕ CoreInfo × Option ℕ)}
    {s : Handover.State ℕ CoreInfo} (hrun : Run (coreHandshake P) h s) {c : Call ℕ CoreInfo}
    (hret : s.command = .returned c) {m : MngData} (hold : c.old = fun l => (m.core l).buffer)
    (hflags : ∀ l, l ∈ c.indices ↔ m.changeCore l = true ∧ l < P.maxLcore) (l : ℕ) :
    s.buf l = (exchanged P m l).buffer := by
  obtain ⟨-, hapart, hdelivered⟩ :=
    Handover.safe_of_run (fun l => (by decide : (0 : Side) ≠ 1)) hrun
  obtain ⟨hhanded, hothers⟩ := hdelivered c hret
  have hne := hapart (by rw [hret]; trivial) l
  unfold exchanged
  by_cases hl : m.changeCore l = true ∧ l < P.maxLcore
  · obtain ⟨⟨l, core⟩, hmem, rfl⟩ := List.mem_map.mp ((hflags l).mpr hl)
    have hbuf := (hhanded l core hmem).2
    rw [hold] at hbuf
    rw [hbuf] at hne
    rw [if_pos hl, buffer_exchange hne.symm]
    exact hbuf
  · rw [if_neg hl, hothers l (fun hin => hl ((hflags l).mp hin)), hold]

/-- The list of the second lcore is handed over. -/
theorem exchanged_of_returned_core : ∃ h s, Run (coreHandshake (.sample .vf)) h s ∧
    s.buf 2 = (exchanged (.sample .vf) { initMngData (.sample .vf) with changeCore := (· = 2) }
      2).buffer := by
  have hstart : Run (coreHandshake (.sample .vf)) [] _ := .start rfl
  obtain ⟨h, hrun, -⟩ := exists_run_of_reaches
    (Handover.reaches_returned _ rfl rfl rfl (by decide))
    (hstart.snoc (.call [2] (by decide) trivial rfl)) (guarded_cons.mpr ⟨trivial, guarded_nil _⟩)
  refine ⟨h, _, hrun, exchanged_of_returned hrun rfl rfl (fun l => ?_) 2⟩
  rw [decide_eq_true_eq, and_iff_left_of_imp fun hl => hl ▸ by decide]
  exact List.mem_singleton

/-- **Cores, forwarders and mirrors.**  From the initialisation on, in every interleaving: the
side that the command thread writes to is not read; outside an update the indices are different;
and when a call has returned, the worker's side holds what the call wrote, and the command
thread has the list of an lcore on its side as well. -/
theorem handshakes_safe (P : Platform) :
    (∀ h s, Run (coreHandshake P) h s →
      Handover.Exclusive s ∧ Handover.Apart s ∧ Handover.Delivered coreDesign s ∧
        ∀ c, s.command = .returned c → ∀ l ∈ c.indices,
          (s.buf l).side (s.buf l).upd = (s.buf l).side (s.buf l).ref) ∧
    (∀ h s, Run forwardHandshake h s →
      Handover.Exclusive s ∧ Handover.Apart s ∧ Handover.Delivered (pathDesign forwardPath) s) ∧
    ∀ h s, Run mirrorHandshake h s →
      Handover.Exclusive s ∧ Handover.Apart s ∧ Handover.Delivered (pathDesign mirrorPath) s := by
  have hpath (i : ℕ) : (pathBuffer .init).ref ≠ (pathBuffer .init).upd := by decide
  refine ⟨fun h s hrun => ?_, fun h s hrun => Handover.safe_of_run hpath hrun,
    fun h s hrun => Handover.safe_of_run hpath hrun⟩
  obtain ⟨hexclusive, hapart, hdelivered⟩ :=
    Handover.safe_of_run (fun l => (by decide : (0 : Side) ≠ 1)) hrun
  refine ⟨hexclusive, hapart, hdelivered, fun c hret l hl => ?_⟩
  obtain ⟨⟨l, core⟩, hmem, rfl⟩ := List.mem_map.mp hl
  have hbuf := ((hdelivered c hret).1 l core hmem).2
  have hne := hapart (by rw [hret]; trivial) l
  dsimp only at *
  rw [hbuf] at hne ⊢
  exact (Function.update_self ..).trans (Function.update_of_ne hne _ _).symm

/-- A forwarder has got a path from `update_forwarder`, and the worker has it. -/
theorem handshakes_safe_update : ∃ h s old, Run forwardHandshake h s ∧
    s.command = .returned ⟨old, [(0, forwardPath "f" .fwd [] [])]⟩ ∧
    (s.buf 0).side (s.buf 0).ref = forwardPath "f" .fwd [] [] := by
  obtain ⟨old, hreach⟩ := @publish_reaches forwardPath (fun _ => pathBuffer .init)
    ⟨fun _ => pathBuffer .init, .idle, fun _ => .top 0⟩ .init 0 0 trivial rfl rfl
    (by decide) "f" .fwd [] []
  obtain ⟨h, hrun, -⟩ := exists_run_of_reaches hreach (.start rfl) (guarded_nil _)
  have hdelivered := ((handshakes_safe (.sample .vf)).2.1 h _ hrun).2.2
  exact ⟨h, _, old, hrun, rfl, ((hdelivered _ rfl).1 0 _ List.mem_cons_self).1⟩

/-- **Updates come to an end.**  No thread is ever stuck, and from the initialisation on, in every
interleaving, a call of `update_lcore_info`, `update_forwarder` or `update_mirror` returns, if the
command thread and the workers of the tables that it hands over take steps again and again; the
other workers may stop. -/
theorem handshakes_return (P : Platform) : Handover.Returns (coreHandshake P) ∧
    Handover.Returns forwardHandshake ∧ Handover.Returns mirrorHandshake := by
  have hpath (i : ℕ) : (pathBuffer .init).ref ≠ (pathBuffer .init).upd := by decide
  have hedit (build : CString → WorkerType → List PortInfo → List PortInfo → Path) (a : Path) :
      ∃ b, (pathDesign build).Edit a b := ⟨_, [], .none, [], [], rfl⟩
  exact ⟨Handover.returns_of_apart (fun a => ⟨a.push 0, 0, .inl rfl⟩)
      fun l => (by decide : (0 : Side) ≠ 1),
    Handover.returns_of_apart (hedit _) hpath, Handover.returns_of_apart (hedit _) hpath⟩

end SoftPatchPanel.Worker
