import SoftPatchPanel.Vf.StatusText

/-!
# Resource UIDs, written and read

`status` shows a port under the name that `sppwk_port_uid` writes, and requests name ports
in the language of `parse_resource_uid`.  For a port with one queue the two agree: the name
is one token, and it is read as the port it was written for.

For a physical port with several queues they do not.  The name is written with blanks, as
in `phy:1 nq 0`, and falls into three tokens; the first is refused because the queue is
missing, and even as a whole the text would be refused, because `nq` has to follow the
number immediately.  Different ports have different names all the same.
-/

namespace SoftPatchPanel.Vf

open Worker Shared

variable {P : Platform} {r : PortRef} {no : ℕ}

/-- The port is one that can be named: its number is an index, and its queue is one that
it has. -/
def Nameable (P : Platform) : PortRef → Prop
  | .phy no q => no < P.maxEthports ∧ q < nofQueues P no
  | .vhost no => no < P.maxEthports
  | .ring no => no < P.maxEthports

/-- The port has several queues. -/
def MultiQueue (P : Platform) : PortRef → Prop
  | .phy no _ => 1 < nofQueues P no
  | .vhost _ => False
  | .ring _ => False

theorem ends_queue (q : ℕ) : CString.Ends (" nq " ++ intText q) := by
  intro c hc
  cases hc
  decide

/-! ## Writing -/

theorem sppwkPortUid_eq_sprintf (hr : Nameable P r) :
    sppwkPortUid P r.portIdx = sprintfTag (portUid P r) := by
  refine sppwkPortUid_eq_sprintfTag ?_
  cases r with
  | phy no q => exact Int.ofNat_lt.mpr hr.1
  | vhost no | ring no => exact Int.ofNat_lt.mpr hr

/-! ## Reading -/

/-- A number alone is read as the number of a port, without a queue. -/
theorem resource_intText (type : PortType) (hno : (no : ℤ) < 2 ^ 31) :
    resourceQueue type (intText no) = some (defaultQueueId, false) ∧
      resourceNo (intText no) = some (no : ℤ) := by
  have hstr := CString.strtol_of_value (value_intText_nil no) (by omega) hno
  obtain ⟨⟨k, rest⟩, hk, heq⟩ := Option.map_eq_some_iff.mp hstr
  obtain ⟨hk', rfl⟩ := Prod.mk.inj heq
  refine ⟨?_, ?_⟩
  · have hnq : CString.strstr "nq" (intText no) = none :=
      CString.strstr_eq_none (not_mem_intText no (by decide))
    rw [resourceQueue, hnq]
  · rw [resourceNo, hk]
    exact (if_pos (.inl rfl)).trans (congrArg some hk')

theorem parseResourceUid_of_number (hP : P.FitsInt) {uid : CString} {type : PortType}
    (htype : resourceType uid = some (type, intText no)) (hno : no < P.maxEthports)
    (hsingle : type = .phy → ¬ 1 < nofQueues P no) :
    parseResourceUid P uid = .ok (some ⟨type, no, defaultQueueId⟩) := by
  obtain ⟨hqueue, hnumber⟩ := resource_intText type (by have := hP.2; omega : (no : ℤ) < 2 ^ 31)
  have hrange : ¬((no : ℤ) > P.maxEthports ∨ (no : ℤ) < 0) := by omega
  rw [Worker.parseResourceUid, htype]
  simp only [hqueue, hnumber]
  rw [if_neg hrange]
  split
  · rename_i hphy
    subst hphy
    rw [getPortMaxQueues_phy hrange, if_neg (by omega)]
    refine if_neg (not_not_intro ?_)
    exact (decide_eq_false (hsingle rfl)).symm
  · rfl

/-- The name of a port with one queue is read as that port. -/
theorem parseResourceUid_portUid (hP : P.FitsInt) (hr : Nameable P r)
    (hsingle : ¬ MultiQueue P r) : parseResourceUid P (portUid P r) = .ok (some r.portIdx) := by
  cases r with
  | phy no q =>
    obtain ⟨hno, hq⟩ := hr
    have hone : ¬ 1 < nofQueues P no := hsingle
    obtain rfl : q = 0 := by omega
    have hnumber : portNumber P (.phy no 0) = intText no := if_pos (Nat.not_lt.mp hone)
    rw [portUid, hnumber]
    exact parseResourceUid_of_number hP rfl hno fun _ => hone
  | vhost no | ring no => exact parseResourceUid_of_number hP rfl hr fun h => by cases h

/-- A name is one token exactly if the port has one queue. -/
theorem tokens_portUid_iff :
    CString.tokens ' ' (portUid P r) = [portUid P r] ↔ ¬ MultiQueue P r := by
  rw [CString.tokens_eq_singleton_iff]
  have hne : portUid P r ≠ [] := by
    cases r with
    | phy | vhost | ring => exact List.cons_ne_nil _ _
  have hplain {word : CString} (hword : ' ' ∉ word) (no : ℕ) : ' ' ∉ word ++ intText no := by
    rw [List.mem_append]
    rintro (hin | hin)
    · exact hword hin
    · exact not_mem_intText no (by decide) hin
  cases r with
  | phy no q =>
    by_cases hmulti : 1 < nofQueues P no
    · have htext : portNumber P (.phy no q) = intText no ++ " nq " ++ intText q :=
        if_neg (Nat.not_le.mpr hmulti)
      refine iff_of_false (fun h => h.2 ?_) (not_not_intro hmulti)
      rw [portUid, htext]
      simp
    · have htext : portNumber P (.phy no q) = intText no := if_pos (Nat.not_lt.mp hmulti)
      refine iff_of_true ⟨hne, ?_⟩ hmulti
      rw [portUid, htext]
      exact hplain (by decide : ' ' ∉ "phy".toList ++ ":".toList) no
  | vhost no =>
    exact iff_of_true ⟨hne, hplain (by decide : ' ' ∉ "vhost".toList ++ ":".toList) no⟩ not_false
  | ring no =>
    exact iff_of_true ⟨hne, hplain (by decide : ' ' ∉ "ring".toList ++ ":".toList) no⟩ not_false

/-! ## Different ports -/

/-- The number at the front of a port's number, and what follows. -/
theorem value_portNumberText (k no q : ℕ) :
    CString.value 10 (portNumberText k no q) =
      some ((no : ℤ), if k ≤ 1 then [] else " nq ".toList ++ intText q) := by
  unfold portNumberText
  split
  · have h := value_intText (.inr rfl) no CString.ends_nil
    rwa [List.append_nil] at h
  · rw [List.append_assoc]
    exact value_intText (.inr rfl) no (ends_queue q)

theorem intText_injective {n n' : ℕ} (h : intText n = intText n') : n = n' := by
  rw [intText_natCast, intText_natCast] at h
  rw [← CString.digitsVal_toDigits n, h, CString.digitsVal_toDigits]

/-- Different ports have different names. -/
theorem portUid_injective {r' : PortRef} (hr : Nameable P r) (hr' : Nameable P r')
    (h : portUid P r = portUid P r') : r = r' := by
  have hcancel {word text text' : CString} (h : word ++ ":".toList ++ text =
      word ++ ":".toList ++ text') : text = text' := List.append_cancel_left h
  cases r with
  | phy no q =>
    cases r' with
    | phy no' q' =>
      have htext : portNumberText (nofQueues P no) no q = portNumberText (nofQueues P no') no' q' :=
        hcancel h
      have hval := congrArg (CString.value 10) htext
      rw [value_portNumberText, value_portNumberText] at hval
      obtain ⟨hno, hrest⟩ := Prod.mk.inj (Option.some.inj hval)
      obtain rfl : no = no' := Int.ofNat_inj.mp hno
      have hq := hr.2
      have hq' := hr'.2
      split at hrest
      · obtain rfl : q = q' := by omega
        rfl
      · rw [intText_injective (List.append_cancel_left hrest)]
    | vhost no' | ring no' => exact absurd (List.cons.inj h).1 (by decide)
  | vhost no =>
    cases r' with
    | vhost no' => rw [intText_injective (hcancel h)]
    | phy no' q' => exact absurd (List.cons.inj h).1 (by decide)
    | ring no' => exact absurd (List.cons.inj h).1 (by decide)
  | ring no =>
    cases r' with
    | ring no' => rw [intText_injective (hcancel h)]
    | phy no' q' => exact absurd (List.cons.inj h).1 (by decide)
    | vhost no' => exact absurd (List.cons.inj h).1 (by decide)

/-- **Resource UIDs.**  For every port and every configuration of queues: what
`sppwk_port_uid` writes is one token that `parse_resource_uid` reads as the same port, if
and only if the port does not have several queues; and different ports have different
names. -/
theorem portUid_roundTrip_iff (P : Platform) (hP : P.FitsInt) (r : PortRef) (hr : Nameable P r) :
    sppwkPortUid P r.portIdx = sprintfTag (portUid P r) ∧
    ((CString.tokens ' ' (portUid P r) = [portUid P r] ∧
      parseResourceUid P (portUid P r) = .ok (some r.portIdx)) ↔ ¬ MultiQueue P r) ∧
    ∀ r', Nameable P r' → portUid P r = portUid P r' → r = r' := by
  refine ⟨sppwkPortUid_eq_sprintf hr, ⟨fun h => ?_, fun hsingle => ?_⟩, fun r' hr' h => ?_⟩
  · exact tokens_portUid_iff.mp h.1
  · exact ⟨tokens_portUid_iff.mpr hsingle, parseResourceUid_portUid hP hr hsingle⟩
  · exact portUid_injective hr hr' h

/-- The first physical port of the sample platform has one queue. -/
theorem portUid_roundTrip_iff_sample :
    CString.tokens ' ' (portUid (.sample .vf) (.phy 0 0)) = [portUid (.sample .vf) (.phy 0 0)] ∧
      parseResourceUid (.sample .vf) (portUid (.sample .vf) (.phy 0 0)) =
        .ok (some ⟨.phy, 0, 0⟩) :=
  (portUid_roundTrip_iff (.sample .vf) ⟨by decide, by decide⟩ (.phy 0 0)
    ⟨by decide, by decide⟩).2.1.mpr
    (by decide : ¬ 1 < nofQueues (.sample .vf) 0)

/-- **A name that cannot be given back.**  The second physical port has two queues; its
first queue is shown as `phy:1 nq 0`, which is three tokens and, as one text, refused. -/
theorem not_portUid_roundTrip_multi :
    sppwkPortUid (.sample .vf) ⟨.phy, 1, 0⟩ = .ok "phy:1 nq 0" ∧
      CString.tokens ' ' "phy:1 nq 0" = ["phy:1", "nq", "0"] ∧
      parseResourceUid (.sample .vf) "phy:1" = .ok none ∧
      parseResourceUid (.sample .vf) "phy:1 nq 0" = .ok none := by
  decide

end SoftPatchPanel.Vf
