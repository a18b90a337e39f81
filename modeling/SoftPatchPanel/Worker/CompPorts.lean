import SoftPatchPanel.Worker.CmdEffect

/-!
# The port lists of a component

`ports dir` as a list, under the two operations of `update_port`: attaching appends,
and detaching takes one occurrence away if there is one.  The directions do not
touch each other.
-/

namespace SoftPatchPanel.Worker

open CountedArray CompInfo

/-- The entries of the array of a direction up to its counter. -/
def CompInfo.slots (c : CompInfo) (dir : PortDir) : List (Option PortRef) :=
  slice (c.nof dir) (c.array dir)

theorem CompInfo.ports_eq (c : CompInfo) (dir : PortDir) :
    c.ports dir = (c.slots dir).reduceOption := by
  cases dir <;> rfl

variable {c : CompInfo} {dir d d' : PortDir} {r r' : PortRef}

theorem CompInfo.mem_ports : r ∈ c.ports dir ↔ some r ∈ c.slots dir := by
  rw [c.ports_eq, List.reduceOption_mem_iff]

@[simp] theorem CompInfo.ports_zero (dir : PortDir) : zero.ports dir = [] := by
  cases dir <;> rfl

@[simp] theorem ports_startedComp (c : CmdComp) (id : ℕ) (dir : PortDir) :
    (startedComp c id).ports dir = [] := by
  cases dir <;> rfl

theorem CompInfo.slots_setPorts (c : CompInfo) (dir : PortDir) (n : ℕ) (a : ℕ → Option PortRef) :
    (c.setPorts dir n a).slots dir = slice n a := by
  cases dir <;> rfl

theorem CompInfo.ports_setPorts_opposite (c : CompInfo) (h : d.Opposite d')
    (n : ℕ) (a : ℕ → Option PortRef) : (c.setPorts d n a).ports d' = c.ports d' := by
  rcases h with ⟨rfl, rfl⟩ | ⟨rfl, rfl⟩ <;> rfl

theorem PortDir.Opposite.ne (h : d.Opposite d') : d' ≠ d := by
  rcases h with ⟨rfl, rfl⟩ | ⟨rfl, rfl⟩ <;> decide

/-- Attaching appends. -/
theorem CompInfo.ports_addPort (c : CompInfo) (dir : PortDir) (r : PortRef) :
    (c.addPort dir r).ports dir = c.ports dir ++ [r] := by
  rw [ports_eq, addPort, slots_setPorts, slice_update_succ,
    List.reduceOption_append, c.ports_eq]
  rfl

theorem CompInfo.ports_addPort_opposite (c : CompInfo) (h : d.Opposite d')
    (r : PortRef) : (c.addPort d r).ports d' = c.ports d' :=
  c.ports_setPorts_opposite h _ _

/-- Detaching a port that is not there does nothing. -/
theorem CompInfo.delPort_of_notMem (h : r ∉ c.ports dir) : c.delPort dir r = c := by
  rw [mem_ports] at h
  have hnone : getIdxPortInfo r (c.nof dir) (c.array dir) = none := lastIdx_eq_none_iff.mpr h
  simp [delPort, deletePortInfo, hnone]

/-- Detaching a port takes one place away. -/
theorem CompInfo.exists_slots_delPort
    (h : r ∈ c.ports dir) : ∃ i, (c.slots dir)[i]? = some (some r) ∧
      (c.delPort dir r).slots dir = (c.slots dir).eraseIdx i := by
  rw [mem_ports] at h
  obtain ⟨i, hi⟩ := exists_lastIdx_of_mem h
  obtain ⟨hlt, hval, -⟩ := lastIdx_eq_some hi
  obtain ⟨n, hn⟩ : ∃ n, c.nof dir = n + 1 := ⟨c.nof dir - 1, by omega⟩
  have hidx : getIdxPortInfo r (c.nof dir) (c.array dir) = some i := hi
  have hlen : i < (c.slots dir).length := by
    rwa [slots, length_slice]
  refine ⟨i, ?_, ?_⟩
  · rw [List.getElem?_eq_getElem hlen]
    simpa [slots] using hval
  · simp only [delPort, deletePortInfo, hidx]
    rw [slots_setPorts, slots, hn, Nat.add_sub_cancel]
    exact slice_shiftDown (by omega) none

/-- Detaching takes one occurrence away. -/
theorem CompInfo.ports_delPort_perm
    (h : r ∈ c.ports dir) : (c.ports dir).Perm (r :: (c.delPort dir r).ports dir) := by
  obtain ⟨i, hget, hdel⟩ := exists_slots_delPort h
  obtain ⟨hlen, hget⟩ := List.getElem?_eq_some_iff.mp hget
  have hperm := List.getElem_cons_eraseIdx_perm hlen
  rw [hget, ← hdel] at hperm
  have hred := List.Perm.filterMap id hperm.symm
  rw [ports_eq, ports_eq]
  simpa [List.reduceOption] using hred

theorem CompInfo.ports_delPort_opposite (c : CompInfo) (h : d.Opposite d')
    (r : PortRef) : (c.delPort d r).ports d' = c.ports d' := by
  unfold delPort
  split
  · exact c.ports_setPorts_opposite h _ _
  · rfl

/-- What is left after detaching was there before. -/
theorem CompInfo.mem_of_mem_delPort (hd : d = .rx ∨ d = .tx)
    (hd' : d' = .rx ∨ d' = .tx) (h : r' ∈ (c.delPort d r).ports d') :
    r' ∈ c.ports d' := by
  rcases PortDir.eq_or_opposite hd hd' with rfl | hopp
  · by_cases hr : r ∈ c.ports d'
    · exact (ports_delPort_perm hr).mem_iff.mpr (List.mem_cons_of_mem _ h)
    · rwa [delPort_of_notMem hr] at h
  · rwa [c.ports_delPort_opposite hopp] at h

theorem CompInfo.nodup_delPort (hd : d = .rx ∨ d = .tx)
    (hd' : d' = .rx ∨ d' = .tx) (h : (c.ports d').Nodup) :
    ((c.delPort d r).ports d').Nodup := by
  rcases PortDir.eq_or_opposite hd hd' with rfl | hopp
  · by_cases hr : r ∈ c.ports d'
    · exact (List.nodup_cons.mp ((ports_delPort_perm hr).nodup_iff.mp h)).2
    · rwa [delPort_of_notMem hr]
  · rwa [c.ports_delPort_opposite hopp]

theorem CompInfo.mem_ports_addPort (hd : d = .rx ∨ d = .tx) (hdir : dir = .rx ∨ dir = .tx) :
    r ∈ (c.addPort d r').ports dir ↔ r ∈ c.ports dir ∨ (r = r' ∧ dir = d) := by
  rcases PortDir.eq_or_opposite hd hdir with rfl | hopp
  · rw [ports_addPort, List.mem_append, List.mem_singleton, and_iff_left rfl]
  · rw [ports_addPort_opposite _ hopp, or_iff_left fun h => hopp.ne h.2]

theorem CompInfo.mem_ports_delPort (hd : d = .rx ∨ d = .tx)
    (hdir : dir = .rx ∨ dir = .tx) (hnodup : (c.ports dir).Nodup) :
    r ∈ (c.delPort d r').ports dir ↔ r ∈ c.ports dir ∧ ¬ (r = r' ∧ dir = d) := by
  rcases PortDir.eq_or_opposite hd hdir with rfl | hopp
  · rw [and_iff_left rfl]
    by_cases hr' : r' ∈ c.ports dir
    · have hperm := ports_delPort_perm hr'
      have hnot := (List.nodup_cons.mp (hperm.nodup_iff.mp hnodup)).1
      rw [hperm.mem_iff, List.mem_cons]
      constructor
      · intro h
        exact ⟨.inr h, fun heq => hnot (heq ▸ h)⟩
      · rintro ⟨h | h, hne⟩
        · exact absurd h hne
        · exact h
    · rw [delPort_of_notMem hr']
      refine ⟨fun h => ⟨h, ?_⟩, fun h => h.1⟩
      rintro rfl
      exact hr' h
  · rw [ports_delPort_opposite _ hopp, and_iff_left fun h => hopp.ne h.2]

theorem addPort_compId (c : CompInfo) (dir : PortDir) (r : PortRef) :
    (c.addPort dir r).compId = c.compId := by
  cases dir <;> rfl

theorem delPort_compId (c : CompInfo) (dir : PortDir) (r : PortRef) :
    (c.delPort dir r).compId = c.compId := by
  unfold delPort
  split
  · cases dir <;> rfl
  · rfl

theorem CompInfo.scanned_eq (c : CompInfo) (hdir : dir = .rx ∨ dir = .tx) :
    c.scanned dir = c.ports dir := by
  rcases hdir with rfl | rfl <;> rfl

/-- The test for ports in use, on the place that a port's name stands for. -/
theorem sppwkCheckUsedPort_eq_usedBy {P : Platform} {m : MngData} {t : PortType} {no q : ℤ}
    {o : Option ℕ} (hport : getSppwkPort P t no q = .ok (some r))
    (h : sppwkCheckUsedPort P m t no q dir = .ok o) : usedBy P m r dir = o := by
  rw [sppwkCheckUsedPort, hport] at h
  exact Except.ok.inj h

end SoftPatchPanel.Worker
