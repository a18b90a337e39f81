import SoftPatchPanel.Vf.ClassifierReport
import SoftPatchPanel.Vf.Routing

/-!
# `classifier.c`: the exchange between `update_classifier` and the worker

The tables of a classifier are a double buffer (`Foundation.DoubleBuffer`) with
`init_component_info` as its build and `clean_component_info` for the side that the
worker has left.  What the worker does with a side shows only in the buffers of the tx
ports.

The protocol wants the two indices to be different when an update starts.  The
forwarder and the mirror see to that when they initialise them; `init_cls_mng_info`
does not, it leaves both at 0.  Once the worker has made its first iteration they are
different, and every update leaves them so; but an update that comes before it is
lost (`not_delivered_of_first_update`).

`classifyPackets_reaches` and `updateClassifier_reaches` tie the protocol to the
functions: an iteration of the worker is a sequence of its steps, and `updateClassifier`
is what one interleaving of an update with the worker comes to.
-/

namespace SoftPatchPanel.Vf

open Worker Transition
open DoubleBuffer (Design State Updater Step Started Exclusive Delivered)

/-- What `classify_packets` does with a side once it has chosen it. -/
def workOn (drain : Bool) (pc : PortCapability) (s : ClsSide) : ClsSide :=
  if s.1.ready then receivePackets pc (if drain then transmitAllPacket pc s else s) else s

/-- The classifier as a double buffer. -/
def clsDesign : Design ClsCompInfo where
  Build a b := ∃ E name rx tx cmp, initComponentInfo E rx tx a = (.ok, cmp) ∧
    b = { cmp with name := name }
  Fail a b := ∃ E rx tx, initComponentInfo E rx tx a = (.ng, b)
  retire _ := .zero
  Drain a b := ∃ pc w, b = (transmitAllPacket pc (a, w)).1
  Work a b := ∃ drain pc w, b = (workOn drain pc (a, w)).1

/-- The double buffer of a classifier, with the two parties at some place. -/
def atPlace (g : ClsMngInfo) (u : Updater ClsCompInfo) (w : DoubleBuffer.Worker) :
    State ClsCompInfo :=
  ⟨g.compList, g.refIndex, g.updIndex, u, w⟩

/-- The classifier and its updates, from `init_cls_mng_info` on. -/
def clsHandshake : System (State ClsCompInfo) DoubleBuffer.Event :=
  DoubleBuffer.system clsDesign ClsMngInfo.zero.compList ClsMngInfo.zero.refIndex
    ClsMngInfo.zero.updIndex

theorem emptied_workOn (drain : Bool) (pc : PortCapability) (s : ClsSide) :
    (workOn drain pc s).1.emptied = s.1.emptied := by
  unfold workOn
  split
  · rw [emptied_receivePackets]
    split
    · exact emptied_transmitAllPacket pc s
    · rfl
  · rfl

/-! ## The protocol and the functions -/

variable {G : State ClsCompInfo → DoubleBuffer.Event → Prop} {cmp : ClsCompInfo}

/-- The worker finds the indices equal and moves to the other side. -/
theorem reaches_swap (hG : ∀ s, G s .worker) (s : State ClsCompInfo) (hat : s.worker = .top)
    (heq : s.ref = s.upd) (pc : PortCapability) (w : DataPath) :
    Reaches clsHandshake G s
      { s with
        table := Function.update s.table s.ref (transmitAllPacket pc (s.table s.ref, w)).1
        ref := s.upd + 1
        worker := .enter } := by
  refine .head ⟨.worker, hG _, .top hat⟩ ?_
  refine .head ⟨.worker, hG _, .equal rfl heq⟩ ?_
  refine .head ⟨.worker, hG _, .swap rfl⟩ ?_
  refine .head ⟨.worker, hG _, .drain rfl ⟨pc, w, rfl⟩⟩ ?_
  refine .head ⟨.worker, hG _, .load rfl⟩ ?_
  exact .single ⟨.worker, hG _, .store rfl⟩

/-- The worker finds the indices different. -/
theorem reaches_differ (hG : ∀ s, G s .worker) (s : State ClsCompInfo) (hat : s.worker = .top)
    (hne : s.ref ≠ s.upd) : Reaches clsHandshake G s { s with worker := .enter } := by
  refine .head ⟨.worker, hG _, .top hat⟩ ?_
  exact .single ⟨.worker, hG _, .differ rfl hne⟩

/-- The worker works on its side. -/
theorem reaches_work (hG : ∀ s, G s .worker) (s : State ClsCompInfo) (hat : s.worker = .enter)
    (drain : Bool) (pc : PortCapability) (w : DataPath) :
    Reaches clsHandshake G s
      { s with
        table := Function.update s.table s.ref (workOn drain pc (s.table s.ref, w)).1
        worker := .top } := by
  refine .head ⟨.worker, hG _, .enter hat⟩ ?_
  exact .single ⟨.worker, hG _, .work rfl ⟨drain, pc, w, rfl⟩⟩

/-- **An iteration of `classify_packets`** is made of the worker's steps, wherever the
updater is. -/
theorem classifyPackets_reaches (hG : ∀ s, G s .worker) (drain : Bool) (s : ClsWorker)
    (u : Updater ClsCompInfo) :
    Reaches clsHandshake G (atPlace s.mng u .top) (atPlace (classifyPackets drain s).mng u .top) := by
  have hchange : Reaches clsHandshake G (atPlace s.mng u .top)
      (atPlace (changeClassifierIndex s).mng u .enter) := by
    unfold changeClassifierIndex
    split
    · rename_i heq
      exact reaches_swap hG (atPlace s.mng u .top) rfl heq s.pc.swapRef s.data
    · rename_i hne
      exact reaches_differ hG (atPlace s.mng u .top) rfl hne
  refine hchange.trans ?_
  set s₁ := changeClassifierIndex s with hs₁
  have hwork := reaches_work hG (atPlace s₁.mng u .enter) rfl drain s₁.pc s₁.data
  have hresult : (classifyPackets drain s).mng = s₁.mng.setSide s₁.mng.refIndex
      (workOn drain s₁.pc s₁.ref).1 := by
    unfold classifyPackets workOn
    simp only [← hs₁]
    split
    · rfl
    · show s₁.mng = s₁.mng.setSide s₁.mng.refIndex (s₁.mng.compList s₁.mng.refIndex)
      unfold ClsMngInfo.setSide
      rw [Function.update_eq_self]
  rw [hresult]
  exact hwork

/-- A side whose buffers are empty is left as it is. -/
theorem transmitAllPacket_of_empty (pc : PortCapability)
    (h : ∀ i, (cmp.txPortsI i).pkts = []) (w : DataPath) :
    transmitAllPacket pc (cmp, w) = (cmp, w) := by
  unfold transmitAllPacket
  generalize List.range (cmp, w).1.nofTxPorts = is
  induction is with
  | nil => rfl
  | cons i is ih =>
    rw [List.foldl_cons, if_neg (by simp [h i])]
    exact ih

/-- No packet is there to be received. -/
def quiet : DataPath := .init ⟨0, 0, 0, []⟩ ⟨[], fun _ => [], []⟩

/-- The first iteration, while the updater has not begun. -/
theorem classifyPackets_reaches_first :
    Reaches clsHandshake (fun _ _ => True) (atPlace .zero .idle .top)
      (atPlace (classifyPackets false ⟨.init, .zero, quiet⟩).mng .idle .top) :=
  classifyPackets_reaches (fun _ => trivial) false ⟨.init, .zero, quiet⟩ .idle

theorem workOn_quiet (cmp : ClsCompInfo) : (workOn false .init (cmp, quiet)).1 = cmp := by
  unfold workOn
  split <;> rfl

/-- The worker may make its first move before the update starts. -/
theorem changeIndex_reaches (hG : ∀ s, G s .worker) (g : ClsMngInfo)
    (hempty : ∀ i, (g.ref.txPortsI i).pkts = []) (u : Updater ClsCompInfo) :
    Reaches clsHandshake G (atPlace g u .top) (atPlace g.changeIndex u .top) := by
  unfold ClsMngInfo.changeIndex
  split
  · rename_i heq
    have hswap := reaches_swap hG (atPlace g u .top) rfl heq .init quiet
    have hside : (transmitAllPacket .init (g.ref, quiet)).1 = g.ref := by
      rw [transmitAllPacket_of_empty .init hempty]
    refine hswap.trans ?_
    change Reaches clsHandshake G ⟨Function.update g.compList g.refIndex
      (transmitAllPacket .init (g.ref, quiet)).1, g.updIndex + 1, g.updIndex, u, .enter⟩ _
    have hself : Function.update g.compList g.refIndex g.ref = g.compList :=
      Function.update_eq_self _ _
    rw [hside, hself]
    have hwork := reaches_work hG ⟨g.compList, g.updIndex + 1, g.updIndex, u, .enter⟩ rfl false
      .init quiet
    dsimp only at hwork
    rwa [workOn_quiet, Function.update_eq_self] at hwork
  · exact .refl

/-- **`updateClassifier`** is what one interleaving comes to: the worker moves first, if
it is early, then the update is made up to the wait, then the worker moves, and the
update returns. -/
theorem updateClassifier_reaches {E : HashEnv} {early : Bool} {name : CString}
    {rx tx : List PortInfo} {g g' : ClsMngInfo} (hempty : ∀ i, (g.ref.txPortsI i).pkts = [])
    (hbuild : initComponentInfo E rx tx (g.compList g.updIndex) = (.ok, cmp))
    (hok : updateClassifier E early name rx tx g = (.ok, g')) (hG : ∀ s e, e ≠ .start → G s e)
    (hstart : ∀ s, s.ref = (if early then g.changeIndex else g).refIndex →
      s.upd = (if early then g.changeIndex else g).updIndex → G s .start) :
    Reaches clsHandshake G (atPlace g .idle .top)
      (atPlace g' (.returned { cmp with name := name }) .enter) := by
  have hworker (s : State ClsCompInfo) : G s .worker := hG s .worker (by decide)
  have hupdater (s : State ClsCompInfo) : G s .updater := hG s .updater (by decide)
  obtain ⟨g₀, cmp', hg₀, hbuild', rfl⟩ := updateClassifier_eq_ok hok
  rw [hbuild] at hbuild'
  cases hbuild'
  rw [← hg₀] at hstart
  have hearly : Reaches clsHandshake G (atPlace g .idle .top) (atPlace g₀ .idle .top) := by
    rw [hg₀]
    split
    · exact changeIndex_reaches hworker g hempty .idle
    · exact .refl
  have hsame : g₀.compList = g.compList ∧ g₀.updIndex = g.updIndex := by
    rw [hg₀]
    unfold ClsMngInfo.changeIndex
    split
    · split <;> exact ⟨rfl, rfl⟩
    · exact ⟨rfl, rfl⟩
  refine hearly.trans ?_
  refine .head ⟨.start, hstart _ rfl rfl, .start (.inl rfl)⟩ ?_
  refine .head ⟨.updater, hupdater _, .build rfl ⟨E, name, rx, tx, cmp, ?_, rfl⟩⟩ ?_
  · show initComponentInfo E rx tx (g₀.compList g₀.updIndex) = _
    rwa [hsame.1, hsame.2]
  refine .head ⟨.updater, hupdater _, .readRef rfl⟩ ?_
  refine .head ⟨.updater, hupdater _, .storeUpd rfl⟩ ?_
  refine .trans (reaches_swap hworker _ rfl rfl .init quiet) ?_
  refine .head ⟨.updater, hupdater _, .poll rfl⟩ ?_
  refine .head ⟨.updater, hupdater _, .left rfl (DoubleBuffer.add_one_ne _)⟩ ?_
  refine .trans (.single ⟨.updater, hupdater _, .retire rfl⟩) ?_
  dsimp only [atPlace]
  rw [Function.update_idem, hsame.2]
  exact .refl

/-- **The exchange is safe**, in every run from `init_cls_mng_info` on in which no update
starts while the indices are equal: neither the build nor the cleaning touches the
side that the worker has, and when `update_classifier` has returned OK the worker's
side is what the call built, with whatever packets the worker has put into it. -/
theorem exclusive_and_delivered_of_handshake (h : List (State ClsCompInfo × DoubleBuffer.Event))
    (s : State ClsCompInfo) (hrun : Run clsHandshake h s) (hG : Guarded Started h) :
    Exclusive s ∧ Delivered ClsCompInfo.emptied s := by
  refine DoubleBuffer.exclusive_and_delivered_of_run ?_ ?_ hrun hG
  · rintro a b ⟨pc, w, rfl⟩
    exact emptied_transmitAllPacket pc (a, w)
  · rintro a b ⟨drain, pc, w, rfl⟩
    exact emptied_workOn drain pc (a, w)

/-! ## The first update -/

/-- A classifier with one tx port. -/
def onePort : List PortInfo := [clsPort 1 0xfff 0x42]

/-- What the first update builds. -/
def onePortSide : ClsCompInfo := (initComponentInfo .ample [] onePort .zero).2

/-- The state in which the first update has returned. -/
def afterFirst (early : Bool) : State ClsCompInfo :=
  atPlace (updateClassifier .ample early [] [] onePort .zero).2
    (.returned { onePortSide with name := [] }) .enter

theorem reaches_afterFirst (early : Bool) (hG : ∀ s e, e ≠ .start → G s e)
    (hstart : ∀ s, s.ref = (if early then ClsMngInfo.zero.changeIndex else .zero).refIndex →
      s.upd = (if early then ClsMngInfo.zero.changeIndex else .zero).updIndex → G s .start) :
    Reaches clsHandshake G (atPlace .zero .idle .top) (afterFirst early) := by
  have hbuild : initComponentInfo .ample [] onePort .zero = (.ok, onePortSide) := rfl
  have hok : updateClassifier .ample early [] [] onePort .zero =
      (.ok, (updateClassifier .ample early [] [] onePort .zero).2) := by
    cases early <;> rfl
  exact updateClassifier_reaches (fun _ => rfl) hbuild hok hG hstart

/-- The worker has made an iteration when the first update comes, and gets the table
with one port. -/
theorem exclusive_and_delivered_of_handshake_early :
    ∃ h, Run clsHandshake h (afterFirst true) ∧ Guarded Started h ∧
      (afterFirst true).updater = .returned { onePortSide with name := [] } ∧
      Exclusive (afterFirst true) ∧ Delivered ClsCompInfo.emptied (afterFirst true) := by
  have hreach : Reaches clsHandshake Started (atPlace .zero .idle .top) (afterFirst true) := by
    refine reaches_afterFirst true (fun s e he hs => absurd hs he) fun s href hupd _ => ?_
    rw [href, hupd]
    decide
  obtain ⟨h, hrun, hG⟩ := exists_run_of_reaches hreach (.start rfl) (guarded_nil _)
  exact ⟨h, hrun, hG, rfl, exclusive_and_delivered_of_handshake h _ hrun hG⟩

/-- **The first update can be lost, and can write what is being read.**  If it comes
before the worker's first iteration, the worker leaves the new side for the empty
one, and the new side is cleaned; and it may be built while the worker is still
sending what the side has queued. -/
theorem not_delivered_of_first_update :
    (∃ h s, Run clsHandshake h s ∧ ¬ Delivered ClsCompInfo.emptied s) ∧
      ∃ h s, Run clsHandshake h s ∧ ¬ Exclusive s := by
  constructor
  · obtain ⟨h, hrun, -⟩ := exists_run_of_reaches
      (reaches_afterFirst (G := fun _ _ => True) false (fun _ _ _ => trivial)
        (fun _ _ _ => trivial)) (.start rfl) (guarded_nil _)
    refine ⟨h, _, hrun, fun hdelivered => ?_⟩
    have hsame := hdelivered _ rfl
    have hports := ClsCompInfo.nofTxPorts_of_emptied_eq hsame
    exact absurd hports (by decide)
  · have hinit : Run clsHandshake [] (atPlace .zero .idle .top) := .start rfl
    refine ⟨_, _, (((hinit.snoc (.top rfl)).snoc (.equal rfl rfl)).snoc (.swap rfl)).snoc
      (.start (.inl rfl)), fun hexclusive => ?_⟩
    exact hexclusive 0 rfl rfl

end SoftPatchPanel.Vf
