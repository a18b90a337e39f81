import SoftPatchPanel.Foundation.Panel
import SoftPatchPanel.Nfv.Ports

/-!
# The patch panel of `spp_nfv`

For its user `spp_nfv` is a patch panel (`Foundation.Panel`) whose ports are the
queues of its ports.  `add` puts one in, `del` takes one out with the patches that end
in it, `patch` connects two, and `patch reset` pulls all cables.  Here the commands run
one after the other, each of them with a UID that makes sense and each of them
successful, and the invariant of the two arrays is established:

* every registered ethdev is the device of the port it is registered as, and no two
  ethdevs are devices of one port;
* the queues marked as used are the queues of the registered ports;
* only those lead anywhere, and only to one another.

What an `add`, a `patch` and a `patch reset` do to the arrays is what they do to the
panel.  A `del` is different.  The loop of `forward_array_remove` is meant to find the
patches to the deleted queue, but it stops at the first queue in use, whatever that one
is patched to, and cuts that one off.  `OnlyFirst` is the condition under which this is
the right thing to do.
-/

namespace SoftPatchPanel.Nfv

open Shared Shared.Tables Panel
open Worker (PortType Fault Ret)
open Transition (System Run Guarded)

variable {L : Limits} {t t' : Tables L} {p q : ℕ × ℕ} {type : PortType} {u : Uid} {A : Panel Uid}

/-! ## Commands -/

/-- The word for a type in a UID. -/
def typeWord : PortType → CString
  | .phy => "phy"
  | .ring => "ring"
  | .vhost => "vhost"
  | .pcap => "pcap"
  | .nullpmd => "nullpmd"
  | .tap => "tap"
  | .memif => "memif"
  | .pipe => "pipe"
  | .undef => "udf"

/-- What `parse_command` does for `patch`, for the two UIDs it has parsed. -/
def doPatch (t : Tables L) (inType : CString) (inId : ℤ) (inQueue : ℕ) (outType : CString)
    (outId : ℤ) (outQueue : ℕ) : Except Fault (ℤ × Tables L) :=
  t.addPatch (t.findPortId inId (getPortType inType), inQueue)
    (t.findPortId outId (getPortType outType), outQueue)

/-- The commands on the panel.  `add` comes with the ethdev that the PMD returns. -/
inductive PanelCmd where
  | add (u : Uid) (dev : ℕ)
  | del (u : Uid)
  | patch (u v : Uid)
  | reset
  deriving DecidableEq, Repr

/-- The two arrays, and the ethdevs of the machine with the ports they are devices of. -/
structure PanelState (L : Limits) where
  tables : Tables L
  dev : ℕ → Option (PortType × ℤ)

/-- The ethdev `d` is what the PMD returns for a port: the device of the port, or, if it
has none, a new one. -/
def PanelState.Answers (s : PanelState L) (u : Uid) (d : ℕ) : Prop :=
  d < L.maxEthports ∧
    (s.dev d = some u.port ∨ s.dev d = none ∧ ∀ i, s.dev i ≠ some u.port)

/-- The ethdevs after a deletion: a ring is only stopped and closed. -/
def PanelState.detach (s : PanelState L) (u : Uid) : ℕ → Option (PortType × ℤ) :=
  if u.type = .ring then s.dev
  else Function.update s.dev (s.tables.findPortId u.id u.type) none

/-- A command with well-formed UIDs of supported types that succeeds. -/
inductive PanelStep : PanelState L → PanelCmd → PanelState L → Prop where
  | add {s : PanelState L} {u : Uid} {d : ℕ} {t : Tables L}
      (hu : u.WellFormed) (hsup : supported (typeWord u.type) = some u.type)
      (hpmd : s.Answers u d)
      (hadd : doAdd s.tables d (typeWord u.type) u.id u.queue = .ok (.ok, t)) :
      PanelStep s (.add u d) ⟨t, Function.update s.dev d (some u.port)⟩
  | del {s : PanelState L} {u : Uid} {t : Tables L}
      (hu : u.WellFormed) (hsup : supported (typeWord u.type) = some u.type)
      (hdel : doDel s.tables (typeWord u.type) u.id u.queue = .ok (.ok, t)) :
      PanelStep s (.del u) ⟨t, s.detach u⟩
  | patch {s : PanelState L} {u v : Uid} {t : Tables L}
      (hu : u.WellFormed) (hv : v.WellFormed)
      (hsupu : (typeWord u.type, u.type) ∈ portmap) (hsupv : (typeWord v.type, v.type) ∈ portmap)
      (hpatch : doPatch s.tables (typeWord u.type) u.id u.queue
        (typeWord v.type) v.id v.queue = .ok (0, t)) :
      PanelStep s (.patch u v) ⟨t, s.dev⟩
  | reset {s : PanelState L} :
      PanelStep s .reset ⟨s.tables.forwardArrayReset, s.dev⟩

/-- What a command does to the panel. -/
def apply (A : Panel Uid) : PanelCmd → Panel Uid
  | .add u _ => A.add u
  | .del u => A.del u
  | .patch u v => A.connect u v
  | .reset => A.disconnectAll

/-! ## The condition -/

/-- The first queue in use, apart from the given one. -/
def firstOther (t : Tables L) (p : ℕ × ℕ) : Option (ℕ × ℕ) :=
  t.scan.find? fun q => t.Present q ∧ q ≠ p

/-- Of the other queues that are patched, the first one in use leads to the given queue
and no other one does. -/
def OnlyFirst (t : Tables L) (p : ℕ × ℕ) : Prop :=
  ∀ q ∈ t.scan, q ≠ p → t.Present q → t.Patched q →
    (t.target q = p ↔ firstOther t p = some q)

instance (t : Tables L) (p : ℕ × ℕ) : Decidable (OnlyFirst t p) :=
  inferInstanceAs (Decidable (∀ q ∈ t.scan, _))

/-- The command is one that the arrays follow. -/
def Harmless (s : PanelState L) : PanelCmd → Prop
  | .add u _ => u.queue = 0
  | .del u => u.queue = 0 ∧ OnlyFirst s.tables (s.tables.findPortId u.id u.type, 0)
  | .patch u v => u.id < 2 ^ 16 ∧ v.id < 2 ^ 16
  | .reset => True

/-! ## The arrays as a layout -/

/-- The places of the arrays, with the queues they stand for. -/
def layout (t : Tables L) : Layout (ℕ × ℕ) Uid where
  present := t.Present
  label := t.uid
  next p := if t.Patched p then some (t.target p) else none

theorem layout_next_eq_some : (layout t).next p = some q ↔ t.Patched p ∧ t.target p = q := by
  show (if t.Patched p then some (t.target p) else none) = some q ↔ _
  split
  · rename_i h
    rw [Option.some.injEq, and_iff_right h]
  · rename_i h
    exact iff_of_false (fun h => by cases h) fun h' => h h'.1

/-- Registered ethdevs are the devices of the ports they are registered as. -/
structure Names (s : PanelState L) : Prop where
  dev_inj : DistinctDevices s.dev
  named : ∀ i, (s.tables.portMap i).portType ≠ .undef →
    i < L.maxEthports ∧
      s.dev i = some ((s.tables.portMap i).portType, (s.tables.portMap i).id)
  number : ∀ i, (s.tables.portMap i).portType ≠ .undef →
    0 ≤ (s.tables.portMap i).id ∧ (s.tables.portMap i).id < 2 ^ 31
  single : ∀ i, (s.tables.portMap i).portType ≠ .phy → s.tables.getPortMaxQueues i ≤ 1

/-- The queues in use are those of the registered ports, and leads stay among them. -/
structure Leads (t : Tables L) : Prop where
  present_iff : ∀ p, t.Present p ↔
    (t.portMap p.1).portType ≠ .undef ∧ p.2 < t.getPortMaxQueues p.1
  absent : ∀ p, ¬ t.Present p → ¬ t.Patched p
  inside : ∀ p, t.Patched p → t.Present (t.target p)
  short : ∀ p, t.Patched p → (t.portMap p.1).id < 2 ^ 16 ∧ (t.portMap (t.target p).1).id < 2 ^ 16

/-- The invariant of the two arrays. -/
structure Inv (s : PanelState L) : Prop extends Names s, Leads s.tables

namespace Inv

variable {s : PanelState L} (h : Inv s) {p : ℕ × ℕ}

include h

/-- No two ethdevs are registered as one port. -/
theorem slot_inj {i k : ℕ} (hi : (s.tables.portMap i).portType ≠ .undef)
    (htype : (s.tables.portMap i).portType = (s.tables.portMap k).portType)
    (hid : (s.tables.portMap i).id = (s.tables.portMap k).id) : i = k := by
  have hk : (s.tables.portMap k).portType ≠ .undef := htype ▸ hi
  have hdev := (h.named i hi).2
  rw [htype, hid] at hdev
  exact h.dev_inj i k _ hdev (h.named k hk).2

theorem distinct : (layout s.tables).Distinct := by
  rintro ⟨i, j⟩ ⟨k, m⟩ hp - heq
  have hp : s.tables.Present (i, j) := hp
  injection heq with htype hid hqueue
  obtain rfl : i = k := h.slot_inj ((h.present_iff _).mp hp).1 htype hid
  obtain rfl : j = m := hqueue
  rfl

theorem present_of_patched (hp : s.tables.Patched p) : s.tables.Present p :=
  not_imp_not.mp (h.absent p) hp

theorem layout_inside : (layout s.tables).Inside := by
  intro p q hpq
  obtain ⟨hp, rfl⟩ := layout_next_eq_some.mp hpq
  exact ⟨h.present_of_patched hp, h.inside p hp⟩

theorem mem_scan_of_present (hp : s.tables.Present p) : p ∈ s.tables.scan := by
  obtain ⟨hreg, hqueue⟩ := (h.present_iff p).mp hp
  exact mem_scan.mpr ⟨(h.named p.1 hreg).1, hqueue⟩

/-- A registered port that is not physical has no queue but the first. -/
theorem snd_eq_zero (hp : s.tables.Present p)
    (htype : (s.tables.portMap p.1).portType ≠ .phy) : p.2 = 0 := by
  have hlt := ((h.present_iff p).mp hp).2
  have hle := h.single p.1 htype
  omega

end Inv

/-! ## Adding a port -/

theorem supported_ne (h : supported (typeWord type) = some type) : type ≠ .undef ∧ type ≠ .phy := by
  cases type <;> first | decide | exact absurd h (by decide)

/-- The tables after a successful `do_add`. -/
theorem doAdd_eq_ok {d : ℕ} (hd : d < L.maxEthports)
    (hsup : supported (typeWord u.type) = some u.type)
    (h : doAdd t d (typeWord u.type) u.id u.queue = .ok (.ok, t')) :
    (∃ stats, t'.portMap d = ⟨u.id, u.type, stats, none⟩) ∧
      (∀ k, k ≠ d → t'.portMap k = t.portMap k) ∧
      t'.fwd (d, u.queue) =
        { t.fwd (d, u.queue) with inPortId := d, inQueueId := u.queue } ∧
      ∀ q, q ≠ (d, u.queue) → t'.fwd q = t.fwd q := by
  simp only [doAdd, hsup] at h
  rw [if_neg (by omega), uint16OfLong_of_lt (hd.trans (L.maxEthports_lt.trans (by decide)))] at h
  unfold register at h
  split at h
  · have ht' := (Prod.mk.inj (Except.ok.inj h)).2
    subst ht'
    refine ⟨⟨if u.type = .ring then .client u.id else (t.portMap d).stats, ?_⟩,
      fun k hk => ?_, ?_, fun q hq => ?_⟩
    · rw [setFwd_portMap, setPort_portMap_self]
    · rw [setFwd_portMap, setPort_portMap_of_ne _ _ hk]
    · rw [setFwd_fwd_self, setPort_fwd]
    · rw [setFwd_fwd_of_ne _ _ hq, setPort_fwd]
  · cases h

section Add

variable {s : PanelState L} {u : Uid} {d k : ℕ} {t : Tables L}

/-- The entry a port is added in is free, or it is the port's own. -/
theorem Names.port_of_registered (h : Names s) (hpmd : s.Answers u d)
    (hreg : (s.tables.portMap d).portType ≠ .undef) :
    (s.tables.portMap d).portType = u.type ∧ (s.tables.portMap d).id = u.id := by
  have hdev := (h.named d hreg).2
  rcases hpmd.2 with hd | ⟨hd, -⟩
  · rw [hd] at hdev
    have heq := Option.some.inj hdev
    exact ⟨(Prod.mk.inj heq).1.symm, (Prod.mk.inj heq).2.symm⟩
  · rw [hd] at hdev
    cases hdev

/-- No other ethdev is the device of the port that is added. -/
theorem Names.dev_ne (h : Names s) (hpmd : s.Answers u d) (hk : k ≠ d) : s.dev k ≠ some u.port := by
  intro hdev
  rcases hpmd.2 with hd | ⟨-, hnone⟩
  · exact hk (h.dev_inj k d _ hdev hd)
  · exact hnone k hdev

variable (hsup : supported (typeWord u.type) = some u.type) (hpmd : s.Answers u d)
  (hadd : doAdd s.tables d (typeWord u.type) u.id u.queue = .ok (.ok, t))

include hsup hpmd hadd

/-- A registered ethdev stays registered as what it is. -/
theorem Names.add_name (h : Names s) (hk : (s.tables.portMap k).portType ≠ .undef) :
    (t.portMap k).portType = (s.tables.portMap k).portType ∧
      (t.portMap k).id = (s.tables.portMap k).id := by
  obtain ⟨⟨stats, hmap⟩, hother, -, -⟩ := doAdd_eq_ok hpmd.1 hsup hadd
  by_cases hkd : k = d
  · subst hkd
    obtain ⟨htype, hid⟩ := h.port_of_registered hpmd hk
    rw [hmap, htype, hid]
    exact ⟨rfl, rfl⟩
  · rw [hother k hkd]
    exact ⟨rfl, rfl⟩

theorem Names.add (h : Names s) (hu : u.WellFormed) :
    Names ⟨t, Function.update s.dev d (some u.port)⟩ where
  dev_inj := h.dev_inj.update_some fun k hk => h.dev_ne hpmd hk
  named k hk := by
    obtain ⟨⟨stats, hmap⟩, hother, -⟩ := doAdd_eq_ok hpmd.1 hsup hadd
    dsimp only at hk ⊢
    by_cases hkd : k = d
    · subst hkd
      refine ⟨hpmd.1, ?_⟩
      rw [Function.update_self, hmap]
    · rw [hother k hkd] at hk ⊢
      rw [Function.update_of_ne hkd]
      exact h.named k hk
  number k hk := by
    obtain ⟨⟨stats, hmap⟩, hother, -⟩ := doAdd_eq_ok hpmd.1 hsup hadd
    dsimp only at hk ⊢
    by_cases hkd : k = d
    · subst hkd
      rwa [hmap]
    · rw [hother k hkd] at hk ⊢
      exact h.number k hk
  single k hk := by
    obtain ⟨⟨stats, hmap⟩, hother, -⟩ := doAdd_eq_ok hpmd.1 hsup hadd
    dsimp only at hk ⊢
    by_cases hkd : k = d
    · rw [hkd, getPortMaxQueues, hmap]
    · rw [hother k hkd] at hk
      rw [getPortMaxQueues_congr (congrArg PortMap.queueInfo (hother k hkd))]
      exact h.single k hk

variable (hqueue : u.queue = 0)

include hqueue

theorem add_present_iff (q : ℕ × ℕ) : t.Present q ↔ s.tables.Present q ∨ q = (d, 0) := by
  obtain ⟨-, -, hself, hother⟩ := doAdd_eq_ok hpmd.1 hsup hadd
  rw [hqueue] at hself hother
  by_cases hq : q = (d, 0)
  · refine iff_of_true ?_ (Or.inr hq)
    rw [hq, Present, hself]
    show d ≠ portReset
    have := L.maxEthports_lt
    have := hpmd.1
    omega
  · rw [Present, Present, hother q hq, or_iff_left hq]

theorem add_target (q : ℕ × ℕ) :
    (t.Patched q ↔ s.tables.Patched q) ∧ t.target q = s.tables.target q := by
  obtain ⟨-, -, hself, hother⟩ := doAdd_eq_ok hpmd.1 hsup hadd
  rw [hqueue] at hself hother
  by_cases hq : q = (d, 0)
  · rw [hq, Patched, Patched, target, target, hself]
    exact ⟨Iff.rfl, rfl⟩
  · rw [Patched, Patched, target, target, hother q hq]
    exact ⟨Iff.rfl, rfl⟩

/-- **`add` adds the port.** -/
theorem Inv.draws_add (h : Inv s) {A : Panel Uid} (hA : Draws (layout s.tables) A) :
    Draws (layout t) (A.add u) := by
  refine hA.add h.layout_inside (d := (d, 0)) (add_present_iff hsup hpmd hadd hqueue) ?_ ?_ ?_
  · obtain ⟨⟨stats, hmap⟩, -⟩ := doAdd_eq_ok hpmd.1 hsup hadd
    show t.uid (d, 0) = u
    rw [uid, hmap, ← hqueue]
  · intro p hp
    obtain ⟨htype, hid⟩ := h.toNames.add_name hsup hpmd hadd ((h.present_iff p).mp hp).1
    show t.uid p = s.tables.uid p
    rw [uid, uid, htype, hid]
  funext p
  obtain ⟨hpatched, htarget⟩ := add_target hsup hpmd hadd hqueue p
  show (if t.Patched p then some (t.target p) else none) =
    if s.tables.Patched p then some (s.tables.target p) else none
  rw [htarget]
  exact if_congr hpatched rfl rfl

theorem Inv.leads_add (h : Inv s) : Leads t where
  present_iff := by
    obtain ⟨⟨stats, hmap⟩, hother, -⟩ := doAdd_eq_ok hpmd.1 hsup hadd
    rintro ⟨i, j⟩
    rw [add_present_iff hsup hpmd hadd hqueue]
    by_cases hid : i = d
    · subst hid
      have hmax : t.getPortMaxQueues i = 1 := by rw [getPortMaxQueues, hmap]
      rw [hmap, hmax]
      constructor
      · rintro (hp | hp)
        · -- the ethdev was the port's own, and the port is not a physical one
          have hreg := ((h.present_iff _).mp hp).1
          have htype := (h.port_of_registered hpmd hreg).1
          have hj : j = 0 := h.snd_eq_zero hp (by rw [htype]; exact (supported_ne hsup).2)
          exact ⟨(supported_ne hsup).1, by omega⟩
        · obtain ⟨-, rfl⟩ := Prod.mk.inj hp
          exact ⟨(supported_ne hsup).1, Nat.one_pos⟩
      · rintro ⟨-, hj⟩
        obtain rfl : j = 0 := by omega
        exact Or.inr rfl
    · rw [hother i hid, getPortMaxQueues_congr (congrArg PortMap.queueInfo (hother i hid)),
        h.present_iff]
      exact or_iff_left fun heq => hid (Prod.mk.inj heq).1
  absent p hp := by
    rw [(add_target hsup hpmd hadd hqueue p).1]
    rw [add_present_iff hsup hpmd hadd hqueue, not_or] at hp
    exact h.absent p hp.1
  inside p hp := by
    obtain ⟨hpatched, htarget⟩ := add_target hsup hpmd hadd hqueue p
    rw [htarget, add_present_iff hsup hpmd hadd hqueue]
    exact Or.inl (h.inside p (hpatched.mp hp))
  short p hp := by
    obtain ⟨hpatched, htarget⟩ := add_target hsup hpmd hadd hqueue p
    rw [hpatched] at hp
    have hp1 := ((h.present_iff p).mp (h.present_of_patched hp)).1
    have hp2 := ((h.present_iff _).mp (h.inside p hp)).1
    rw [htarget, (h.add_name hsup hpmd hadd hp1).2, (h.add_name hsup hpmd hadd hp2).2]
    exact h.short p hp

end Add

/-! ## Deleting a port -/

/-- The tables after a successful `do_del`, of a registered port. -/
theorem doDel_eq_ok (hsup : supported (typeWord u.type) = some u.type)
    (h : doDel t (typeWord u.type) u.id u.queue = .ok (.ok, t')) :
    t.Registered u.type u.id ∧
      ∃ t₁, t.forwardArrayRemove (t.findPortId u.id u.type, u.queue) = .ok t₁ ∧
        t' = t₁.setPort (t.findPortId u.id u.type) PortMap.reset := by
  simp only [doDel, hsup] at h
  by_cases hreg : t.Registered u.type u.id
  · rw [if_neg (mt findPortId_eq_portReset_iff.mp (not_not_intro hreg))] at h
    refine ⟨hreg, ?_⟩
    unfold unregister portMapInitOne at h
    cases hrem : t.forwardArrayRemove (t.findPortId u.id u.type, u.queue) with
    | error e =>
      rw [hrem] at h
      cases h
    | ok t₁ =>
      refine ⟨t₁, rfl, ?_⟩
      rw [hrem] at h
      change Prod.mk Ret.ok <$> (if t.findPortId u.id u.type < L.maxEthports then
        Except.ok (t₁.setPort (t.findPortId u.id u.type) PortMap.reset)
        else .error Fault.undefined) = _ at h
      rw [if_pos (findPortId_of_registered hreg).1] at h
      exact (Prod.mk.inj (Except.ok.inj h)).2.symm
  · rw [if_pos (findPortId_eq_portReset_iff.mpr hreg)] at h
    cases h

/-- The loop of `forward_array_remove` stops at the first queue in use. -/
theorem Leads.removeStop_eq (h : Leads t) (hp : p.1 < L.maxEthports) :
    (t.setFwd p (t.fwd p).reset).removeStop p = firstOther t p := by
  have hreset := L.maxEthports_lt
  unfold removeStop firstOther
  rw [scan_setFwd]
  congr 1
  funext q
  rw [decide_eq_decide]
  by_cases hq : q = p
  · subst hq
    refine iff_of_false (not_not_intro ⟨?_, ?_⟩) fun h => h.2 rfl
    · rw [Present, setFwd_fwd_self]
      exact not_not_intro rfl
    rw [target, setFwd_fwd_self]
    intro heq
    have h1 : portReset = q.1 := congrArg Prod.fst heq
    omega
  rw [Present, target, setFwd_fwd_of_ne _ _ hq]
  show ¬ (¬ t.Present q ∧ t.target q ≠ p) ↔ t.Present q ∧ q ≠ p
  rw [and_iff_left hq]
  constructor
  · intro hstop
    by_contra hpres
    refine hstop ⟨hpres, fun heq => ?_⟩
    have h1 : (t.fwd q).outPortId = p.1 := congrArg Prod.fst heq
    have h2 : (t.fwd q).outPortId = portReset := not_not.mp (h.absent q hpres)
    omega
  · exact fun hpres hstop => hstop.1 hpres

/-- What is left of an entry after `forward_array_remove`. -/
theorem Leads.forwardArrayRemove_fwd (h : Leads t)
    (hrem : t.forwardArrayRemove p = .ok t') (q : ℕ × ℕ) :
    t'.portMap = t.portMap ∧
      t'.fwd q = if q = p then (t.fwd p).reset
        else if firstOther t p = some q then { t.fwd q with outPortId := portReset }
        else t.fwd q := by
  obtain ⟨hp, ht'⟩ := forwardArrayRemove_eq_ok hrem
  rw [h.removeStop_eq hp] at ht'
  by_cases hq : q = p
  · rw [if_pos hq, hq, ht']
    cases hfirst : firstOther t p with
    | none => exact ⟨rfl, setFwd_fwd_self ..⟩
    | some r =>
      have hr := List.find?_some hfirst
      rw [decide_eq_true_eq] at hr
      exact ⟨rfl, (unpatch_fwd_of_ne _ hr.2.symm).trans (setFwd_fwd_self ..)⟩
  rw [if_neg hq, ht']
  cases hfirst : firstOther t p with
  | none => exact ⟨rfl, setFwd_fwd_of_ne _ _ hq⟩
  | some r =>
    by_cases hqr : r = q
    · subst hqr
      rw [if_pos rfl, ← setFwd_fwd_of_ne t (t.fwd p).reset hq]
      exact ⟨rfl, unpatch_fwd_self ..⟩
    · rw [if_neg fun heq => hqr (Option.some.inj heq)]
      exact ⟨rfl, (unpatch_fwd_of_ne _ (Ne.symm hqr)).trans
        (setFwd_fwd_of_ne _ _ hq)⟩

section Del

variable {s : PanelState L} {u : Uid} {t : Tables L}
  (hsup : supported (typeWord u.type) = some u.type) (hqueue : u.queue = 0)
  (hdel : doDel s.tables (typeWord u.type) u.id u.queue = .ok (.ok, t))

include hsup hdel

/-- The entry of the deleted port is free now; the others are as they were. -/
theorem del_portMap (h : Inv s) :
    t.portMap (s.tables.findPortId u.id u.type) = PortMap.reset ∧
      ∀ k, k ≠ s.tables.findPortId u.id u.type → t.portMap k = s.tables.portMap k := by
  obtain ⟨-, t₁, hrem, rfl⟩ := doDel_eq_ok hsup hdel
  have hmap := (h.forwardArrayRemove_fwd hrem (0, 0)).1
  refine ⟨setPort_portMap_self .., fun k hk => ?_⟩
  rw [setPort_portMap_of_ne _ _ hk, hmap]

/-- No other queue in use belongs to the deleted port. -/
theorem del_slot_ne (h : Inv s) {p : ℕ × ℕ} (hp : s.tables.Present p)
    (hne : p ≠ (s.tables.findPortId u.id u.type, 0)) :
    p.1 ≠ s.tables.findPortId u.id u.type := by
  obtain ⟨hreg, -⟩ := doDel_eq_ok hsup hdel
  obtain ⟨-, htype, -⟩ := findPortId_of_registered hreg
  intro hslot
  refine hne (Prod.ext hslot (h.snd_eq_zero hp ?_))
  rw [hslot, htype]
  exact (supported_ne hsup).2

theorem Inv.names_del (h : Inv s) : Names ⟨t, s.detach u⟩ := by
  obtain ⟨hself, hother⟩ := del_portMap hsup hdel h
  have hne : ∀ k, (t.portMap k).portType ≠ .undef → k ≠ s.tables.findPortId u.id u.type := by
    intro k hk heq
    rw [heq, hself] at hk
    exact hk rfl
  refine ⟨?_, ?_, ?_, ?_⟩
  · show DistinctDevices (s.detach u)
    unfold PanelState.detach
    split
    · exact h.dev_inj
    · exact h.dev_inj.update_none _
  · intro k hk
    have hkd := hne k hk
    dsimp only at hk ⊢
    rw [hother k hkd] at hk ⊢
    refine ⟨(h.named k hk).1, ?_⟩
    unfold PanelState.detach
    split
    · exact (h.named k hk).2
    · rw [Function.update_of_ne hkd]
      exact (h.named k hk).2
  · intro k hk
    have hkd := hne k hk
    dsimp only at hk ⊢
    rw [hother k hkd] at hk ⊢
    exact h.number k hk
  intro k hk
  dsimp only at hk ⊢
  by_cases hkd : k = s.tables.findPortId u.id u.type
  · rw [hkd, getPortMaxQueues, hself]
    exact Nat.le_refl 1
  · rw [hother k hkd] at hk
    rw [getPortMaxQueues_congr (congrArg PortMap.queueInfo (hother k hkd))]
    exact h.single k hk

include hqueue

theorem del_fwd (h : Inv s) (q : ℕ × ℕ) :
    t.fwd q = if q = (s.tables.findPortId u.id u.type, 0)
        then (s.tables.fwd (s.tables.findPortId u.id u.type, 0)).reset
      else if firstOther s.tables (s.tables.findPortId u.id u.type, 0) = some q
        then { s.tables.fwd q with outPortId := portReset }
      else s.tables.fwd q := by
  obtain ⟨-, t₁, hrem, rfl⟩ := doDel_eq_ok hsup hdel
  rw [hqueue] at hrem
  exact (h.forwardArrayRemove_fwd hrem q).2

theorem del_present_iff (h : Inv s) (q : ℕ × ℕ) :
    t.Present q ↔ s.tables.Present q ∧ q ≠ (s.tables.findPortId u.id u.type, 0) := by
  rw [Present, del_fwd hsup hqueue hdel h q]
  split
  · rename_i hq
    exact iff_of_false (not_not_intro rfl) fun h => h.2 hq
  · rename_i hq
    rw [and_iff_left hq]
    split <;> rfl

variable (honly : OnlyFirst s.tables (s.tables.findPortId u.id u.type, 0))

include honly

/-- The patches that are left are those that do not end in the deleted queue. -/
theorem del_patched_iff (h : Inv s) (q : ℕ × ℕ) :
    (t.Patched q ↔ s.tables.Patched q ∧ q ≠ (s.tables.findPortId u.id u.type, 0) ∧
      s.tables.target q ≠ (s.tables.findPortId u.id u.type, 0)) ∧
    (t.Patched q → t.target q = s.tables.target q) := by
  have hfwd := del_fwd hsup hqueue hdel h q
  by_cases hq : q = (s.tables.findPortId u.id u.type, 0)
  · rw [if_pos hq] at hfwd
    rw [Patched, hfwd]
    exact ⟨iff_of_false (not_not_intro rfl) fun h => h.2.1 hq, fun h => absurd rfl h⟩
  rw [if_neg hq] at hfwd
  by_cases hfirst : firstOther s.tables (s.tables.findPortId u.id u.type, 0) = some q
  · rw [if_pos hfirst] at hfwd
    rw [Patched, hfwd]
    refine ⟨iff_of_false (not_not_intro rfl) ?_, fun h => absurd rfl h⟩
    rintro ⟨hpatched, -, hne⟩
    have hpres := h.present_of_patched hpatched
    exact hne ((honly q (h.mem_scan_of_present hpres) hq hpres hpatched).mpr hfirst)
  rw [if_neg hfirst] at hfwd
  have htarget : t.target q = s.tables.target q := by rw [target, hfwd]; rfl
  rw [Patched, hfwd]
  refine ⟨?_, fun _ => htarget⟩
  constructor
  · intro hpatched
    have hpres := h.present_of_patched hpatched
    refine ⟨hpatched, hq, fun heq => hfirst ?_⟩
    exact (honly q (h.mem_scan_of_present hpres) hq hpres hpatched).mp heq
  · exact fun h => h.1

/-- **`del` removes the port and the patches that end in it.** -/
theorem Inv.draws_del (h : Inv s) {A : Panel Uid} (hA : Draws (layout s.tables) A) :
    Draws (layout t) (A.del u) := by
  obtain ⟨hreg, -⟩ := doDel_eq_ok hsup hdel
  obtain ⟨-, htype, hid⟩ := findPortId_of_registered hreg
  obtain ⟨-, hother⟩ := del_portMap hsup hdel h
  refine hA.del h.layout_inside (d := (s.tables.findPortId u.id u.type, 0)) ?_
    (del_present_iff hsup hqueue hdel h) ?_ ?_
  · intro p hp
    constructor
    · intro hlabel
      have hlabel : s.tables.uid p = u := hlabel
      have hslot : p.1 = s.tables.findPortId u.id u.type := by
        refine h.slot_inj ((h.present_iff p).mp hp).1 ?_ ?_
        · rw [htype, ← hlabel]
          rfl
        · rw [hid, ← hlabel]
          rfl
      have hsnd : p.2 = 0 := by
        rw [← hqueue, ← hlabel]
        rfl
      exact Prod.ext hslot hsnd
    · rintro rfl
      show Uid.mk _ _ _ = u
      rw [htype, hid, ← hqueue]
  · intro p hp
    obtain ⟨hp, hne⟩ := (del_present_iff hsup hqueue hdel h p).mp hp
    show t.uid p = s.tables.uid p
    rw [uid, uid, hother p.1 (del_slot_ne hsup hdel h hp hne)]
  intro p q
  rw [layout_next_eq_some, layout_next_eq_some]
  obtain ⟨hpatched, htarget⟩ := del_patched_iff hsup hqueue hdel honly h p
  constructor
  · rintro ⟨hp, rfl⟩
    rw [htarget hp]
    obtain ⟨hp, hne, hto⟩ := hpatched.mp hp
    exact ⟨⟨hp, rfl⟩, hne, hto⟩
  · rintro ⟨⟨hp, rfl⟩, hne, hto⟩
    have hp' := hpatched.mpr ⟨hp, hne, hto⟩
    exact ⟨hp', htarget hp'⟩

theorem Inv.leads_del (h : Inv s) : Leads t where
  present_iff := by
    obtain ⟨hself, hother⟩ := del_portMap hsup hdel h
    intro p
    rw [del_present_iff hsup hqueue hdel h]
    by_cases hslot : p.1 = s.tables.findPortId u.id u.type
    · refine iff_of_false ?_ ?_
      · exact fun hp => del_slot_ne hsup hdel h hp.1 hp.2 hslot
      · rintro ⟨hne, -⟩
        rw [hslot, hself] at hne
        exact hne rfl
    · rw [hother _ hslot,
        getPortMaxQueues_congr (congrArg PortMap.queueInfo (hother _ hslot)),
        ← h.present_iff]
      exact and_iff_left fun heq => hslot (congrArg Prod.fst heq)
  absent p hp := by
    rw [del_present_iff hsup hqueue hdel h] at hp
    rw [(del_patched_iff hsup hqueue hdel honly h p).1]
    rintro ⟨hpatched, hne, -⟩
    exact hp ⟨h.present_of_patched hpatched, hne⟩
  inside p hp := by
    obtain ⟨hpatched, htarget⟩ := del_patched_iff hsup hqueue hdel honly h p
    rw [htarget hp, del_present_iff hsup hqueue hdel h]
    obtain ⟨hp, -, hto⟩ := hpatched.mp hp
    exact ⟨h.inside p hp, hto⟩
  short p hp := by
    obtain ⟨-, hother⟩ := del_portMap hsup hdel h
    obtain ⟨hpatched, htarget⟩ := del_patched_iff hsup hqueue hdel honly h p
    rw [htarget hp]
    obtain ⟨hp, hne, hto⟩ := hpatched.mp hp
    rw [hother _ (del_slot_ne hsup hdel h (h.present_of_patched hp) hne),
      hother _ (del_slot_ne hsup hdel h (h.inside p hp) hto)]
    exact h.short p hp

end Del

/-! ## Patching -/

theorem word_of_mem_portmap (h : (typeWord type, type) ∈ portmap) :
    getPortType (typeWord type) = type ∧ type ≠ .undef := by
  cases type <;> first | decide | exact absurd h (by decide)

/-- A patch that is accepted joins two registered ports. -/
theorem doPatch_eq_ok {v : Uid} (hu : (typeWord u.type, u.type) ∈ portmap)
    (hv : (typeWord v.type, v.type) ∈ portmap)
    (h : doPatch t (typeWord u.type) u.id u.queue (typeWord v.type) v.id v.queue = .ok (0, t')) :
    ∃ p q, p.1 < L.maxEthports ∧ q.1 < L.maxEthports ∧ t.uid p = u ∧ t.uid q = v ∧
      p.2 < t.getPortMaxQueues p.1 ∧ q.2 < t.getPortMaxQueues q.1 ∧ t' = t.writePatch p q := by
  obtain ⟨hp, hq, ht'⟩ := addPatch_eq_zero h
  rw [(word_of_mem_portmap hu).1] at hp ht'
  rw [(word_of_mem_portmap hv).1] at hq ht'
  have hreset := L.maxEthports_lt
  have hfound : ∀ w : Uid, t.findPortId w.id w.type < L.maxEthports →
      t.uid (t.findPortId w.id w.type, w.queue) = w := by
    intro w hlt
    have hreg : t.Registered w.type w.id := by
      by_contra hreg
      rw [findPortId_eq_portReset_iff.mpr hreg] at hlt
      omega
    obtain ⟨-, htype, hid⟩ := findPortId_of_registered hreg
    rw [uid, htype, hid]
  exact ⟨_, _, hp.1, hq.1, hfound u hp.1, hfound v hq.1, hp.2.2, hq.2.2, ht'⟩

/-- What an entry is after `add_patch`. -/
theorem writePatch_present_iff (hp : p.1 < L.maxEthports)
    (hq : q.1 < L.maxEthports) (hpp : t.Present p) (hqp : t.Present q) (r : ℕ × ℕ) :
    (t.writePatch p q).Present r ↔ t.Present r := by
  have hreset := L.maxEthports_lt
  unfold writePatch
  by_cases hrq : r = q
  · subst hrq
    refine iff_of_true ?_ hqp
    rw [Present, setFwd_fwd_self]
    show r.1 ≠ portReset
    omega
  by_cases hrp : r = p
  · subst hrp
    refine iff_of_true ?_ hpp
    rw [Present, setFwd_fwd_of_ne _ _ hrq, setFwd_fwd_self]
    show r.1 ≠ portReset
    omega
  · rw [Present, setFwd_fwd_of_ne _ _ hrq, setFwd_fwd_of_ne _ _ hrp]
    rfl

theorem writePatch_target (t : Tables L) (p q : ℕ × ℕ) :
    (t.writePatch p q).target p = q ∧
      ∀ r, r ≠ p → (t.writePatch p q).target r = t.target r := by
  have houts : ∀ r, (t.writePatch p q).target r =
      (t.setFwd p ⟨p.1, p.2, q.1, q.2, true⟩).target r := by
    intro r
    by_cases hrq : r = q
    · rw [hrq, target, writePatch, setFwd_fwd_self]
      rfl
    · rw [target, writePatch, setFwd_fwd_of_ne _ _ hrq]
      rfl
  constructor
  · rw [houts, target, setFwd_fwd_self]
  · intro r hr
    rw [houts, target, setFwd_fwd_of_ne _ _ hr]
    rfl

theorem patched_iff_target : t.Patched p ↔ (t.target p).1 ≠ portReset := Iff.rfl

variable {s : PanelState L}

theorem Inv.patch_patched_iff (h : Inv s) (hq : s.tables.Present q) (r : ℕ × ℕ) :
    (s.tables.writePatch p q).Patched r ↔ r = p ∨ s.tables.Patched r := by
  obtain ⟨hself, hother⟩ := writePatch_target s.tables p q
  rw [patched_iff_target]
  by_cases hr : r = p
  · refine iff_of_true ?_ (Or.inl hr)
    rw [hr, hself]
    have := L.maxEthports_lt
    have := (h.named _ ((h.present_iff q).mp hq).1).1
    omega
  · rw [hother r hr, or_iff_right hr, patched_iff_target]

section Patch

variable {s : PanelState L} {p q : ℕ × ℕ} (h : Inv s) (hp : s.tables.Present p)
  (hq : s.tables.Present q)

include h hp hq

theorem Inv.patch_present_iff (r : ℕ × ℕ) :
    (s.tables.writePatch p q).Present r ↔ s.tables.Present r :=
  writePatch_present_iff (h.named _ ((h.present_iff p).mp hp).1).1
    (h.named _ ((h.present_iff q).mp hq).1).1 hp hq r

/-- **`patch` connects the two queues.** -/
theorem Inv.draws_patch {A : Panel Uid} (hA : Draws (layout s.tables) A) :
    Draws (layout (s.tables.writePatch p q)) (A.connect (s.tables.uid p) (s.tables.uid q)) := by
  obtain ⟨hself, hother⟩ := writePatch_target s.tables p q
  refine hA.connect h.distinct h.layout_inside hp ?_ rfl ?_
  · funext r
    exact propext (h.patch_present_iff hp hq r)
  intro r r'
  rw [layout_next_eq_some, layout_next_eq_some, h.patch_patched_iff hq]
  by_cases hr : r = p
  · subst hr
    rw [hself]
    simp [eq_comm]
  · rw [hother r hr]
    simp [hr]

theorem Inv.leads_patch (hshort : (s.tables.portMap p.1).id < 2 ^ 16 ∧
    (s.tables.portMap q.1).id < 2 ^ 16) : Leads (s.tables.writePatch p q) where
  present_iff r := (h.patch_present_iff hp hq r).trans (h.present_iff r)
  absent r hr := by
    rw [h.patch_present_iff hp hq] at hr
    rw [h.patch_patched_iff hq, not_or]
    refine ⟨?_, h.absent r hr⟩
    rintro rfl
    exact hr hp
  inside r hr := by
    obtain ⟨hself, hother⟩ := writePatch_target s.tables p q
    rw [h.patch_present_iff hp hq]
    by_cases hrp : r = p
    · rwa [hrp, hself]
    · rw [hother r hrp]
      exact h.inside r (((h.patch_patched_iff hq r).mp hr).resolve_left hrp)
  short r hr := by
    obtain ⟨hself, hother⟩ := writePatch_target s.tables p q
    show (s.tables.portMap r.1).id < 2 ^ 16 ∧ (s.tables.portMap _).id < 2 ^ 16
    by_cases hrp : r = p
    · rwa [hrp, hself]
    · rw [hother r hrp]
      exact h.short r (((h.patch_patched_iff hq r).mp hr).resolve_left hrp)

end Patch

/-! ## Pulling all cables -/

theorem forwardArrayReset_present_iff (t : Tables L) (r : ℕ × ℕ) :
    t.forwardArrayReset.Present r ↔ t.Present r := by
  rw [Present, forwardArrayReset_fwd]
  split <;> rfl

theorem Inv.not_patched_reset (h : Inv s) (r : ℕ × ℕ) : ¬ s.tables.forwardArrayReset.Patched r := by
  rw [Patched, forwardArrayReset_fwd]
  by_cases hr : s.tables.Present r
  · rw [if_pos ⟨h.mem_scan_of_present hr, hr⟩]
    exact not_not_intro rfl
  · rw [if_neg fun h => hr h.2]
    exact h.absent r hr

/-- **`patch reset` pulls all cables.** -/
theorem Inv.draws_reset (h : Inv s) (hA : Draws (layout s.tables) A) :
    Draws (layout s.tables.forwardArrayReset) A.disconnectAll := by
  refine hA.disconnectAll ?_ ?_ fun r => if_neg (h.not_patched_reset r)
  · funext r
    exact propext (forwardArrayReset_present_iff s.tables r)
  · funext r
    show Uid.mk _ _ _ = Uid.mk _ _ _
    rw [forwardArrayReset_portMap]

theorem Inv.reset (h : Inv s) : Inv ⟨s.tables.forwardArrayReset, s.dev⟩ where
  dev_inj := h.dev_inj
  named := by simpa using h.named
  number := by simpa using h.number
  single := by simpa [getPortMaxQueues] using h.single
  present_iff r := by
    have hmax : s.tables.forwardArrayReset.getPortMaxQueues r.1 =
        s.tables.getPortMaxQueues r.1 :=
      getPortMaxQueues_congr (by rw [forwardArrayReset_portMap])
    rw [forwardArrayReset_present_iff, h.present_iff, forwardArrayReset_portMap, hmax]
  absent r _ := h.not_patched_reset r
  inside r hr := absurd hr (h.not_patched_reset r)
  short r hr := absurd hr (h.not_patched_reset r)

/-! ## One command -/

/-- **One command.**  It keeps the invariant, and what the arrays draw changes as the
panel does. -/
theorem Inv.step {s' : PanelState L} {c : PanelCmd} (h : Inv s) (hG : Harmless s c)
    (hstep : PanelStep s c s') (hA : Draws (layout s.tables) A) :
    Inv s' ∧ Draws (layout s'.tables) (apply A c) := by
  cases hstep with
  | add hu hsup hpmd hadd =>
    exact ⟨⟨h.toNames.add hsup hpmd hadd hu, h.leads_add hsup hpmd hadd hG⟩,
      h.draws_add hsup hpmd hadd hG hA⟩
  | del hu hsup hdel =>
    exact ⟨⟨h.names_del hsup hdel, h.leads_del hsup hG.1 hdel hG.2⟩,
      h.draws_del hsup hG.1 hdel hG.2 hA⟩
  | patch hu hv hsupu hsupv hpatch =>
    obtain ⟨p, q, -, -, rfl, rfl, hpq, hqq, rfl⟩ := doPatch_eq_ok hsupu hsupv hpatch
    have hp : s.tables.Present p :=
      (h.present_iff p).mpr ⟨(word_of_mem_portmap hsupu).2, hpq⟩
    have hq : s.tables.Present q :=
      (h.present_iff q).mpr ⟨(word_of_mem_portmap hsupv).2, hqq⟩
    exact ⟨⟨⟨h.dev_inj, h.named, h.number, h.single⟩, h.leads_patch hp hq hG⟩,
      h.draws_patch hp hq hA⟩
  | reset => exact ⟨h.reset, h.draws_reset hA⟩

end SoftPatchPanel.Nfv
