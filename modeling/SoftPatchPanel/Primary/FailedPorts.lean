import SoftPatchPanel.Nfv.Ports
import SoftPatchPanel.Primary.Ports

/-!
# What a command that cannot succeed leaves behind

An `add` or a `del` has to fail if the type of the port is not one the process
supports, if the port to delete is not registered, or if the PMD reports an error.
Such a command should answer that it failed and leave the tables alone.

It does where the functions look before they write.  `do_add` looks at the result of
the PMD, and both deletions look up the port.  The other ways through the functions
write first, or do not look at all:

* a name that is no type of a port passes through all comparisons, and the command
  goes on with the initial values of its variables --- ethdev 0, or `PORT_RESET` as an
  index;
* nobody reads what `dev_detach_by_port_id` returns;
* `add_port` writes `port_id_list` before it looks at the result of the PMD, for every
  type but a pipe.  This changes nothing only if the first free entry reads already
  what is written, which takes the id `PORT_RESET`.
-/

namespace SoftPatchPanel

open Shared
open Worker (PortType Fault Ret)
open Transition (bind_eq_ok)

variable {L : Limits}

/-- The two commands on ports, with what the PMD answers: the result of the function
that adds the port, or of `dev_detach_by_port_id`. -/
inductive Shared.PortOp where
  | add (pmd : ℤ)
  | del (detach : ℤ)

/-- A command that goes through to its end answers that it succeeded. -/
theorem map_ok_ne_ng {S : Type} (x : Except Fault S) (s : S) :
    (Prod.mk Ret.ok) <$> x ≠ .ok (.ng, s) := by
  cases x with
  | error e => exact fun h => by cases h
  | ok a => exact fun h => by cases h

/-- A command that looks first answers that it failed exactly if there is nothing to do
it with, and then nothing has changed. -/
theorem ite_ng_iff {S : Type} {p : Prop} [Decidable p] {x : Except Fault S} {s s' : S} :
    (if p then .ok (.ng, s) else (Prod.mk Ret.ok) <$> x) = .ok (.ng, s') ↔ s' = s ∧ p := by
  split
  · rename_i hp
    rw [Except.ok.injEq, Prod.mk.injEq, and_iff_right rfl, and_iff_left hp, eq_comm]
  · rename_i hp
    exact iff_of_false (map_ok_ne_ng x s') fun h => hp h.2

namespace Nfv

/-- An `add` or `del` command of `spp_nfv`, with its UID. -/
structure PortCommand where
  op : PortOp
  pType : CString
  pId : ℤ
  queueId : ℕ

/-- What the command does. -/
def PortCommand.exec (c : PortCommand) (t : Tables L) : Except Fault (Ret × Tables L) :=
  match c.op with
  | .add pmd => doAdd t pmd c.pType c.pId c.queueId
  | .del _ => doDel t c.pType c.pId c.queueId

/-- The type is not supported, the port to delete is not registered, or the PMD call
returns an error.  The calls for a ring, `rte_eth_dev_stop` and `rte_eth_dev_close`,
return nothing. -/
def PortCommand.MustFail (c : PortCommand) (t : Tables L) : Prop :=
  match c.op with
  | .add pmd => supported c.pType = none ∨ pmd < 0
  | .del detach =>
    ∀ type, supported c.pType = some type →
      ¬ t.Registered type c.pId ∨ type ≠ .ring ∧ detach < 0

/-- The function looks at what is wrong before it writes. -/
def PortCommand.Noticed (c : PortCommand) (t : Tables L) : Prop :=
  match c.op with
  | .add _ => supported c.pType ≠ none
  | .del _ => ∃ type, supported c.pType = some type ∧ ¬ t.Registered type c.pId

variable {t t' : Tables L} {pType : CString} {pId pmd : ℤ} {queueId : ℕ}

theorem doAdd_of_pmd_neg (h : supported pType ≠ none) (hpmd : pmd < 0) :
    doAdd t pmd pType pId queueId = .ok (.ng, t) := by
  obtain ⟨type, hsup⟩ := Option.ne_none_iff_exists'.mp h
  simp only [doAdd, hsup, if_pos hpmd]

theorem doAdd_ne_of_not_supported (h : supported pType = none) :
    doAdd t pmd pType pId queueId ≠ .ok (.ng, t') := by
  simp only [doAdd, h]
  exact map_ok_ne_ng _ _

/-- A deletion answers that it failed exactly if it supports the type and does not find
the port, and then it has changed nothing. -/
theorem doDel_eq_ng_iff :
    doDel t pType pId queueId = .ok (.ng, t') ↔
      t' = t ∧ ∃ type, supported pType = some type ∧ ¬ t.Registered type pId := by
  cases hsup : supported pType with
  | none =>
    simp only [doDel, hsup]
    refine iff_of_false (map_ok_ne_ng _ _) ?_
    rintro ⟨-, type, h, -⟩
    cases h
  | some type =>
    simp only [doDel, hsup, Option.some.injEq, exists_eq_left']
    rw [ite_ng_iff, Tables.findPortId_eq_portReset_iff]

/-- **A failing command of `spp_nfv`** answers that it failed, and changes nothing,
exactly if the function notices. -/
theorem PortCommand.exec_unchanged_iff (c : PortCommand) (t : Tables L) (h : c.MustFail t) :
    c.exec t = .ok (.ng, t) ↔ c.Noticed t := by
  obtain ⟨op, pType, pId, queueId⟩ := c
  cases op with
  | add pmd =>
    show doAdd t pmd pType pId queueId = .ok (.ng, t) ↔ supported pType ≠ none
    constructor
    · intro hok hnone
      exact doAdd_ne_of_not_supported hnone hok
    · intro hsup
      exact doAdd_of_pmd_neg hsup (h.resolve_left hsup)
  | del detach =>
    exact doDel_eq_ng_iff.trans (and_iff_right rfl)

end Nfv

namespace Primary

/-- An `add` or `del` command of `spp_primary`, with the tokens behind the UID. -/
structure PortCommand where
  op : PortOp
  pType : CString
  pId : ℤ
  rings : Option CString × Option CString

/-- What the command does. -/
def PortCommand.exec (c : PortCommand) (s : State L) : Except Fault (Ret × State L) :=
  match c.op with
  | .add pmd => addPort s pmd c.pType c.pId c.rings
  | .del _ => delPort s c.pType c.pId

/-- The type is not supported, the port to delete is not registered, or the PMD call
returns an error. -/
def PortCommand.MustFail (c : PortCommand) (s : State L) : Prop :=
  match c.op with
  | .add pmd => supported c.pType = none ∨ pmd < 0
  | .del detach =>
    ∀ type, supported c.pType = some type →
      ¬ s.Listed type c.pId ∨ type ≠ .ring ∧ detach < 0

/-- What `add_port` is about to write to the list is there already. -/
def State.Rewrites (s : State L) (type : PortType) (pId : ℤ) : Prop :=
  s.firstFree < L.maxEthports ∧
    (s.portIdList s.firstFree).portId = pId ∧ (s.portIdList s.firstFree).type = type

/-- The function looks at what is wrong before it writes, or it writes what is there. -/
def PortCommand.Noticed (c : PortCommand) (s : State L) : Prop :=
  match c.op with
  | .add _ =>
    c.pType = pipeName ∧ RingsFit c.pId c.rings ∨
      ∃ type, recordedTypes.lookup c.pType = some type ∧ s.Rewrites type c.pId
  | .del _ => ∃ type, supported c.pType = some type ∧ ¬ s.Listed type c.pId

variable {s s' : State L} {pId res pmd : ℤ} {cnt : ℕ} {pType : CString}
  {rings : Option CString × Option CString}

theorem finishAdd_of_neg (h : res < 0) :
    finishAdd s cnt res pId = .ok (.ng, s) := if_pos h

theorem finishAdd_ne_ng (h : 0 ≤ res) : finishAdd s cnt res pId ≠ .ok (.ng, s') := by
  unfold finishAdd
  rw [if_neg (not_lt.mpr h)]
  split <;> exact fun h => by cases h

theorem setList_eq_self_iff {d : ℕ} {e : PortIdMap} : s.setList d e = s ↔ s.portIdList d = e := by
  constructor
  · intro h
    rw [← h, State.setList_portIdList_self]
  rintro rfl
  ext1
  · rfl
  · exact Function.update_eq_self ..

/-- For a type that is recorded first, a failed addition has written the entry. -/
theorem addPort_recorded_iff {type : PortType}
    (h : recordedTypes.lookup pType = some type) (hpmd : pmd < 0) :
    addPort s pmd pType pId rings = .ok (.ng, s) ↔ s.Rewrites type pId := by
  simp only [addPort, h]
  rw [bind_eq_ok]
  unfold record State.Rewrites
  by_cases hfree : s.firstFree < L.maxEthports
  · rw [if_pos hfree]
    constructor
    · rintro ⟨s', hs', hfin⟩
      rw [finishAdd_of_neg hpmd] at hfin
      obtain rfl : s' = s := (Prod.mk.inj (Except.ok.inj hfin)).2
      have hentry := setList_eq_self_iff.mp (Except.ok.inj hs')
      refine ⟨hfree, ?_, ?_⟩ <;> rw [hentry]
    · rintro ⟨-, rfl, rfl⟩
      refine ⟨s, congrArg _ (setList_eq_self_iff.mpr rfl), finishAdd_of_neg hpmd⟩
  · rw [if_neg hfree]
    refine iff_of_false ?_ fun h => hfree h.1
    rintro ⟨s', hs', -⟩
    cases hs'

theorem addPipePmd_eq_ok_iff :
    addPipePmd pId rings pmd = .ok res ↔ RingsFit pId rings ∧ pmd = res := by
  unfold addPipePmd
  split
  · rename_i rx tx
    have hfit : RingsFit pId (some rx, some tx) ↔ (pipeDevargs pId rx tx).length < 64 := by
      constructor
      · rintro ⟨_, _, heq, hlen⟩
        cases heq
        exact hlen
      · exact fun hlen => ⟨rx, tx, rfl, hlen⟩
    rw [hfit]
    split
    · rename_i hlen
      rw [Except.ok.injEq]
      exact (and_iff_right hlen).symm
    · rename_i hlen
      exact iff_of_false (fun h => by cases h) fun h => hlen h.1
  · rename_i hnot
    refine iff_of_false (fun h => by cases h) ?_
    rintro ⟨⟨rx, tx, rfl, -⟩, -⟩
    exact hnot rx tx rfl

theorem lookup_pipeName : recordedTypes.lookup pipeName = none := by decide

/-- A pipe looks at the result first. -/
theorem addPort_pipe_iff (hpmd : pmd < 0) :
    addPort s pmd pipeName pId rings = .ok (.ng, s) ↔ RingsFit pId rings := by
  simp only [addPort, lookup_pipeName]
  rw [if_pos trivial, bind_eq_ok]
  simp only [addPipePmd_eq_ok_iff]
  constructor
  · rintro ⟨_, ⟨hfit, rfl⟩, -⟩
    exact hfit
  intro hfit
  refine ⟨pmd, ⟨hfit, rfl⟩, ?_⟩
  rw [if_pos hpmd]
  rfl

theorem supported_eq_none_iff :
    supported pType = none ↔ recordedTypes.lookup pType = none ∧ pType ≠ pipeName := by
  rw [supported, List.lookup_append, Option.or_eq_none_iff]
  refine and_congr_right fun _ => ?_
  by_cases h : pType = pipeName
  · subst h
    exact iff_of_false (by decide) (not_not_intro rfl)
  · refine iff_of_true ?_ h
    simp [List.lookup_cons, beq_false_of_ne h]

/-- A name that is no type goes on with ethdev 0. -/
theorem addPort_ne_of_not_supported (h : supported pType = none) :
    addPort s pmd pType pId rings ≠ .ok (.ng, s') := by
  obtain ⟨hlookup, hpipe⟩ := supported_eq_none_iff.mp h
  simp only [addPort, hlookup]
  rw [if_neg hpipe]
  exact finishAdd_ne_ng (Int.le_refl 0)

/-- A deletion answers that it failed exactly if it supports the type and does not find
the port in the list, and then it has changed nothing. -/
theorem delPort_eq_ng_iff :
    delPort s pType pId = .ok (.ng, s') ↔
      s' = s ∧ ∃ type, supported pType = some type ∧ ¬ s.Listed type pId := by
  cases hsup : supported pType with
  | none =>
    simp only [delPort, hsup]
    refine iff_of_false (map_ok_ne_ng _ _) ?_
    rintro ⟨-, type, h, -⟩
    cases h
  | some type =>
    simp only [delPort, hsup, Option.some.injEq, exists_eq_left']
    rw [ite_ng_iff, findEthdevId_eq_portReset_iff]

/-- **A failing command of `spp_primary`** answers that it failed, and changes nothing,
exactly if the function notices in time. -/
theorem PortCommand.exec_unchanged_iff (c : PortCommand) (s : State L) (h : c.MustFail s) :
    c.exec s = .ok (.ng, s) ↔ c.Noticed s := by
  obtain ⟨op, pType, pId, rings⟩ := c
  cases op with
  | del detach => exact delPort_eq_ng_iff.trans (and_iff_right rfl)
  | add pmd =>
    show addPort s pmd pType pId rings = .ok (.ng, s) ↔
      pType = pipeName ∧ RingsFit pId rings ∨
        ∃ type, recordedTypes.lookup pType = some type ∧ s.Rewrites type pId
    have h : supported pType = none ∨ pmd < 0 := h
    cases hlookup : recordedTypes.lookup pType with
    | some type =>
      have hsup : supported pType ≠ none := fun hn => by
        rw [(supported_eq_none_iff.mp hn).1] at hlookup
        cases hlookup
      have hpipe : pType ≠ pipeName := by
        rintro rfl
        rw [lookup_pipeName] at hlookup
        cases hlookup
      rw [addPort_recorded_iff hlookup (h.resolve_left hsup)]
      simp [hpipe]
    | none =>
      by_cases hpipe : pType = pipeName
      · subst hpipe
        have hsup : supported pipeName ≠ none := by decide
        rw [addPort_pipe_iff (h.resolve_left hsup)]
        simp
      · have hsup : supported pType = none := supported_eq_none_iff.mpr ⟨hlookup, hpipe⟩
        refine iff_of_false (addPort_ne_of_not_supported hsup) ?_
        simp [hpipe]

end Primary

/-! ## Both processes -/

/-- **Commands that have to fail.**  In `spp_nfv` and in `spp_primary`, an `add` or `del`
of a type that is not supported, of a port that is not there, or with an error from the
PMD answers that it failed and leaves every table as it is, without an index outside
one, exactly if the function notices before it writes. -/
theorem failedPorts_unchanged_iff :
    (∀ (c : Nfv.PortCommand) (t : Tables L), c.MustFail t →
      (c.exec t = .ok (.ng, t) ↔ c.Noticed t)) ∧
    (∀ (c : Primary.PortCommand) (s : Primary.State L), c.MustFail s →
      (c.exec s = .ok (.ng, s) ↔ c.Noticed s)) :=
  ⟨Nfv.PortCommand.exec_unchanged_iff, Primary.PortCommand.exec_unchanged_iff⟩

/-- The first commands of two processes: `add ring:0` where there is no such ring, and
`del vhost:1`, which nobody has added. -/
theorem failedPorts_unchanged_ring_vhost :
    (⟨.add (-1), "ring", 0, 0⟩ : Nfv.PortCommand).exec
        (Nfv.startUp (Host.empty .default)) =
      .ok (.ng, Nfv.startUp (Host.empty .default)) ∧
    (⟨.del 0, "vhost", 1, (none, none)⟩ : Primary.PortCommand).exec
        (Primary.startUp (Host.empty .default) true) =
      .ok (.ng, Primary.startUp (Host.empty .default) true) := by
  have hlist : ¬ (Primary.startUp (Host.empty .default) true).Listed .vhost 1 := by
    rintro ⟨d, -, -, htype⟩
    have hfree : (Primary.startUp (Host.empty .default) true).portIdList d =
        ⟨portReset, .undef, 0, 0⟩ := if_neg fun h => Bool.false_ne_true h.2
    rw [hfree] at htype
    cases htype
  constructor
  · refine (failedPorts_unchanged_iff.1 _ _ ?_).mpr ?_
    · exact Or.inr (by decide)
    · show Nfv.supported "ring" ≠ none
      decide
  · refine (failedPorts_unchanged_iff.2 _ _ ?_).mpr ?_
    · intro type htype
      obtain rfl : PortType.vhost = type := Option.some.inj htype
      exact Or.inl hlist
    · exact ⟨.vhost, by decide, hlist⟩

/-- The first command of a `spp_nfv` without ports is `add tap:0`, a type it does not
support.  It answers that it succeeded, and ethdev 0 is now in use. -/
theorem failedPorts_changed_tap :
    (⟨.add 0, "tap", 0, 0⟩ : Nfv.PortCommand).MustFail
        (Nfv.startUp (Host.empty .default)) ∧
    ∃ t, (⟨.add 0, "tap", 0, 0⟩ : Nfv.PortCommand).exec
        (Nfv.startUp (Host.empty .default)) = .ok (.ok, t) ∧
      (Nfv.startUp (Host.empty .default)).fwd (0, 0) = ⟨portReset, 0, portReset, 0, false⟩ ∧
      t.fwd (0, 0) = ⟨0, 0, portReset, 0, false⟩ := by
  refine ⟨Or.inl (by decide), _, rfl, rfl, rfl⟩

end SoftPatchPanel
