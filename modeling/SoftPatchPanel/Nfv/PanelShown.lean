import SoftPatchPanel.Nfv.PatchPanel
import SoftPatchPanel.Nfv.Status

/-!
# What `spp_nfv` shows is the panel

The panel that a user of `spp_nfv` has in mind starts with the ports found at start-up
and changes with every command.  This file compares it with the three things that can
be seen of the two arrays: the ports and the patches that `status` lists, and the pairs
of queues that `forward` serves.  They agree as long as every command is `Harmless`
(`Nfv.PatchPanel`) and the ports found at start-up can be told apart.

The ports of the panel are queues.  `status` writes the queue only for a physical port
with several of them, and such a port always has the queue 1, so what is written for a
queue can be read off the panel (`printed`).
-/

namespace SoftPatchPanel.Nfv

open Shared Panel
open Worker (PortType Fault Ret)
open Transition (System Run Guarded guarded_cons guarded_nil)

variable {L : Limits} {host : Host L} {i k : ℕ} {n : PortType × ℤ}

/-! ## Start-up -/

/-- The port that an ethdev is registered as at start-up. -/
def foundAs (host : Host L) (i : ℕ) : Option (PortType × ℤ) :=
  (deviceOf host i).bind fun n => if n.1 = .vhost ∨ n.1 = .pipe then none else some n

/-- The number of queues of an ethdev. -/
def hostQueues (host : Host L) (i : ℕ) : ℕ :=
  if (host.queueInfo i).txq ≤ (host.queueInfo i).rxq then (host.queueInfo i).rxq
  else (host.queueInfo i).txq

/-- The panel at start-up. -/
def foundPanel (host : Host L) : Panel Uid where
  ports := {u | ∃ i < host.nbPorts, foundAs host i = some u.port ∧ u.queue < hostQueues host i}
  patch _ := none

/-- The entry of `port_map` that start-up leaves. -/
def foundMap (host : Host L) (i : ℕ) : PortMap L :=
  match foundAs host i with
  | some n => ⟨n.2, n.1, .port i, some (host.queueInfo i)⟩
  | none => PortMap.reset

/-- The entry of `ports_fwd_array` that start-up leaves. -/
def foundFwd (host : Host L) (p : ℕ × ℕ) : FwdPort :=
  if (foundAs host p.1).isSome ∧ p.2 < hostQueues host p.1 then
    ⟨p.1, p.2, portReset, 0, false⟩
  else ⟨portReset, 0, portReset, 0, false⟩

/-- One pass of the loop, after the right number of physical ports. -/
theorem enterPort_eq {acc : ℕ × Tables L} {n : ℕ} (h : acc.1 = Nat.count host.IsPhy n) :
    enterPort host acc n =
      (Nat.count host.IsPhy (n + 1),
        match foundAs host n with
        | some m => enterAt host acc.2 n m.1 m.2
        | none => acc.2) := by
  have hcount : Nat.count host.IsPhy (n + 1) = Nat.count host.IsPhy n +
      if (host.dev n).map Prod.fst = some .phy then 1 else 0 := Nat.count_succ ..
  rw [hcount]
  unfold enterPort foundAs deviceOf
  cases hdev : host.dev n with
  | none => exact Prod.ext h rfl
  | some m =>
    obtain ⟨type, id⟩ := m
    by_cases hphy : type = .phy
    · subst hphy
      simp [h]
    · by_cases hskip : type = .vhost ∨ type = .pipe
      · exact Prod.ext (by simp [h, hphy, hskip]) (by simp [hphy, hskip])
      · simp [h, hphy, hskip]

/-- The entries that one pass writes. -/
theorem enterAt_apply (host : Host L) (t : Tables L) (n : ℕ) (type : PortType) (id : ℤ) :
    (enterAt host t n type id).portMap n = ⟨id, type, .port n, some (host.queueInfo n)⟩ ∧
      (∀ i, i ≠ n → (enterAt host t n type id).portMap i = t.portMap i) ∧
      ∀ p, (enterAt host t n type id).fwd p =
        if p.1 = n ∧ p.2 < hostQueues host n then { t.fwd p with inPortId := n, inQueueId := p.2 }
        else t.fwd p := by
  refine ⟨Tables.setPort_portMap_self .., fun i hi => Tables.setPort_portMap_of_ne _ _ hi,
    fun p => ?_⟩
  have hmax : (t.setPort n ⟨id, type, .port n, some (host.queueInfo n)⟩).getPortMaxQueues n =
      hostQueues host n := by
    rw [Tables.getPortMaxQueues, Tables.setPort_portMap_self]
    rfl
  show (if _ ∧ p.2 < (t.setPort n _).getPortMaxQueues n then _ else _) = _
  rw [hmax]
  rfl

/-- **The loop of start-up.** -/
theorem foldl_enterPort (host : Host L) (n : ℕ) :
    let acc := (List.range n).foldl (enterPort host) (0, Tables.init)
    acc.1 = Nat.count host.IsPhy n ∧
      (∀ i, acc.2.portMap i = if i < n then foundMap host i else PortMap.reset) ∧
      ∀ p, acc.2.fwd p =
        if p.1 < n then foundFwd host p else ⟨portReset, 0, portReset, 0, false⟩ := by
  induction n with
  | zero => exact ⟨rfl, fun i => rfl, fun p => rfl⟩
  | succ n ih =>
    obtain ⟨hrank, hmap, hfwd⟩ := ih
    rw [List.range_succ, List.foldl_append, List.foldl_cons, List.foldl_nil, enterPort_eq hrank]
    cases hfound : foundAs host n with
    | none =>
      refine ⟨rfl, fun i => ?_, fun p => ?_⟩
      · show ((List.range n).foldl (enterPort host) (0, Tables.init)).2.portMap i = _
        rw [hmap]
        by_cases hin : i = n
        · rw [hin, if_neg (Nat.lt_irrefl n), if_pos (Nat.lt_succ_self n), foundMap, hfound]
        · simp only [Nat.lt_succ_iff_lt_or_eq, hin, or_false]
      show ((List.range n).foldl (enterPort host) (0, Tables.init)).2.fwd p = _
      rw [hfwd]
      by_cases hpn : p.1 = n
      · rw [hpn, if_neg (Nat.lt_irrefl n), if_pos (Nat.lt_succ_self n), foundFwd, hpn, hfound]
        rfl
      · simp only [Nat.lt_succ_iff_lt_or_eq, hpn, or_false]
    | some m =>
      obtain ⟨hself, hother, hall⟩ := enterAt_apply host
        ((List.range n).foldl (enterPort host) (0, Tables.init)).2 n m.1 m.2
      refine ⟨rfl, fun i => ?_, fun p => ?_⟩
      · by_cases hin : i = n
        · rwa [hin, if_pos (Nat.lt_succ_self n), foundMap, hfound]
        · simp only [Nat.lt_succ_iff_lt_or_eq, hin, or_false]
          exact (hother i hin).trans (hmap i)
      refine (hall p).trans ?_
      rw [hfwd]
      by_cases hpn : p.1 = n
      · rw [hpn, if_neg (Nat.lt_irrefl n), if_pos (Nat.lt_succ_self n), foundFwd, hpn, hfound]
        simp
      · simp only [Nat.lt_succ_iff_lt_or_eq, hpn, or_false, false_and, if_false]

theorem startUp_portMap (host : Host L) (i : ℕ) :
    (startUp host).portMap i = if i < host.nbPorts then foundMap host i else PortMap.reset :=
  (foldl_enterPort host host.nbPorts).2.1 i

theorem startUp_fwd (host : Host L) (p : ℕ × ℕ) :
    (startUp host).fwd p =
      if p.1 < host.nbPorts then foundFwd host p else ⟨portReset, 0, portReset, 0, false⟩ :=
  (foldl_enterPort host host.nbPorts).2.2 p

/-- The ports found at start-up can be told apart by type and number, and only physical
ones have more than one queue. -/
structure Proper (host : Host L) : Prop where
  distinct : ∀ i k n, n.1 ≠ .phy → host.dev i = some n → host.dev k = some n → i = k
  number : ∀ i n, host.dev i = some n → 0 ≤ n.2 ∧ n.2 < 2 ^ 31
  single : ∀ i n, host.dev i = some n → n.1 ≠ .phy → hostQueues host i ≤ 1

/-- The process when it starts to read commands. -/
def startState (host : Host L) : PanelState L := ⟨startUp host, deviceOf host⟩

theorem deviceOf_eq_some :
    deviceOf host i = some n ↔
      (n.1 ≠ .phy ∧ host.dev i = some n) ∨
      (n = (.phy, (Nat.count host.IsPhy i : ℤ)) ∧ (host.dev i).map Prod.fst = some .phy) := by
  unfold deviceOf
  cases hdev : host.dev i with
  | none => simp
  | some m =>
    simp only [Option.map_some, Option.some.injEq]
    by_cases hm : m.1 = .phy
    · rw [if_pos hm]
      constructor
      · rintro rfl
        exact Or.inr ⟨rfl, hm⟩
      · rintro (⟨hn, rfl⟩ | ⟨rfl, -⟩)
        · exact absurd hm hn
        · rfl
    · rw [if_neg hm]
      constructor
      · rintro rfl
        exact Or.inl ⟨hm, rfl⟩
      · rintro (⟨-, h⟩ | ⟨-, h⟩)
        · exact h
        · exact absurd h hm

theorem nbPorts_le (host : Host L) : host.nbPorts ≤ L.maxEthports := by
  have h := List.countP_le_length (p := fun i => (host.dev i).isSome)
    (l := List.range L.maxEthports)
  rwa [List.length_range] at h

theorem Proper.deviceOf_inj (h : Proper host)
    (hi : deviceOf host i = some n) (hk : deviceOf host k = some n) : i = k := by
  rw [deviceOf_eq_some] at hi hk
  rcases hi with ⟨hn, hi⟩ | ⟨hn, hi⟩
  · rcases hk with ⟨-, hk⟩ | ⟨hn', -⟩
    · exact h.distinct i k n hn hi hk
    · exact absurd (by rw [hn']) hn
  rcases hk with ⟨hn', -⟩ | ⟨hn', hk⟩
  · exact absurd (by rw [hn]) hn'
  · refine Nat.count_injective (p := host.IsPhy) hi hk ?_
    have heq := (Prod.mk.inj (hn.symm.trans hn')).2
    omega

theorem foundAs_eq_some :
    foundAs host i = some n ↔ deviceOf host i = some n ∧ n.1 ≠ .vhost ∧ n.1 ≠ .pipe := by
  unfold foundAs
  cases hdev : deviceOf host i with
  | none => simp
  | some m =>
    simp only [Option.bind_some, Option.some.injEq]
    by_cases hm : m.1 = .vhost ∨ m.1 = .pipe
    · rw [if_pos hm]
      refine iff_of_false (fun h => by cases h) ?_
      rintro ⟨rfl, hv, hp⟩
      rcases hm with hm | hm
      · exact hv hm
      · exact hp hm
    · rw [if_neg hm, Option.some.injEq]
      rw [not_or] at hm
      constructor
      · rintro rfl
        exact ⟨rfl, hm⟩
      · exact fun h => h.1

theorem deviceOf_ne_undef (h : deviceOf host i = some n) : n.1 ≠ .undef := by
  rcases deviceOf_eq_some.mp h with ⟨-, h⟩ | ⟨h, -⟩
  · exact host.dev_ne_undef i n h
  · rw [h]
    exact fun h => by cases h

/-- An ethdev is registered at start-up exactly if it is found. -/
theorem startUp_registered (h : ((startUp host).portMap i).portType ≠ .undef) :
    i < host.nbPorts ∧ ∃ n, foundAs host i = some n ∧
      (startUp host).portMap i = ⟨n.2, n.1, .port i, some (host.queueInfo i)⟩ := by
  rw [startUp_portMap] at h ⊢
  by_cases hi : i < host.nbPorts
  · rw [if_pos hi] at h ⊢
    unfold foundMap at h ⊢
    cases hfound : foundAs host i with
    | none =>
      rw [hfound] at h
      exact absurd rfl h
    | some n => exact ⟨hi, n, rfl, rfl⟩
  · rw [if_neg hi] at h
    exact absurd rfl h

theorem startUp_portMap_of_found (hi : i < host.nbPorts) (hfound : foundAs host i = some n) :
    (startUp host).portMap i = ⟨n.2, n.1, .port i, some (host.queueInfo i)⟩ := by
  rw [startUp_portMap, if_pos hi, foundMap, hfound]

theorem not_patched_startUp (host : Host L) (p : ℕ × ℕ) : ¬ (startUp host).Patched p := by
  rw [Tables.Patched, startUp_fwd]
  unfold foundFwd
  split
  · split <;> exact not_not_intro rfl
  · exact not_not_intro rfl

theorem present_startUp_iff {p : ℕ × ℕ} :
    (startUp host).Present p ↔
      p.1 < host.nbPorts ∧ (∃ n, foundAs host p.1 = some n) ∧ p.2 < hostQueues host p.1 := by
  have hreset := L.maxEthports_lt
  have hnb := nbPorts_le host
  rw [Tables.Present, startUp_fwd]
  by_cases hp : p.1 < host.nbPorts
  · rw [if_pos hp, foundFwd, and_iff_right hp, ← Option.isSome_iff_exists]
    split
    · rename_i h
      refine iff_of_true ?_ h
      show p.1 ≠ portReset
      omega
    · rename_i h
      exact iff_of_false (not_not_intro rfl) h
  · rw [if_neg hp]
    exact iff_of_false (not_not_intro rfl) fun h => hp h.1

theorem Proper.inv_startState (h : Proper host) : Inv (startState host) where
  dev_inj i k n hi hk := h.deviceOf_inj hi hk
  named i hi := by
    obtain ⟨hlt, n, hfound, hmap⟩ := startUp_registered hi
    refine ⟨hlt.trans_le (nbPorts_le host), ?_⟩
    show deviceOf host i = some (((startUp host).portMap i).portType, ((startUp host).portMap i).id)
    rw [hmap]
    exact (foundAs_eq_some.mp hfound).1
  number i hi := by
    obtain ⟨hlt, n, hfound, hmap⟩ := startUp_registered hi
    show 0 ≤ ((startUp host).portMap i).id ∧ ((startUp host).portMap i).id < 2 ^ 31
    rw [hmap]
    rcases deviceOf_eq_some.mp (foundAs_eq_some.mp hfound).1 with ⟨-, hdev⟩ | ⟨hn, -⟩
    · exact h.number i n hdev
    rw [hn]
    have : Nat.count host.IsPhy i ≤ i := Nat.count_le _
    have := nbPorts_le host
    have := L.maxEthports_lt
    have hreset : portReset = 65535 := rfl
    constructor
    · exact Int.natCast_nonneg _
    · show (Nat.count host.IsPhy i : ℤ) < 2 ^ 31
      omega
  single i hi := by
    by_cases hreg : ((startUp host).portMap i).portType = .undef
    · have hmap : ((startUp host).portMap i).queueInfo = none := by
        rw [startUp_portMap] at hreg ⊢
        by_cases hlt : i < host.nbPorts
        · rw [if_pos hlt] at hreg ⊢
          unfold foundMap at hreg ⊢
          cases hfound : foundAs host i with
          | none => rfl
          | some n =>
            rw [hfound] at hreg
            exact absurd hreg (deviceOf_ne_undef (foundAs_eq_some.mp hfound).1)
        · rw [if_neg hlt]
          rfl
      show (startUp host).getPortMaxQueues i ≤ 1
      rw [Tables.getPortMaxQueues, hmap]
    · obtain ⟨hlt, n, hfound, hmap⟩ := startUp_registered hreg
      have hi : ((startUp host).portMap i).portType ≠ .phy := hi
      rw [hmap] at hi
      show (startUp host).getPortMaxQueues i ≤ 1
      rw [Tables.getPortMaxQueues, hmap]
      rcases deviceOf_eq_some.mp (foundAs_eq_some.mp hfound).1 with ⟨-, hdev⟩ | ⟨hn, -⟩
      · exact h.single i n hdev hi
      · exact absurd (by rw [hn]) hi
  present_iff p := by
    show (startUp host).Present p ↔ ((startUp host).portMap p.1).portType ≠ .undef ∧
      p.2 < (startUp host).getPortMaxQueues p.1
    rw [present_startUp_iff]
    constructor
    · rintro ⟨hlt, ⟨n, hfound⟩, hqueue⟩
      rw [Tables.getPortMaxQueues, startUp_portMap_of_found hlt hfound]
      exact ⟨deviceOf_ne_undef (foundAs_eq_some.mp hfound).1, hqueue⟩
    · rintro ⟨hreg, hqueue⟩
      obtain ⟨hlt, n, hfound, hmap⟩ := startUp_registered hreg
      rw [Tables.getPortMaxQueues, hmap] at hqueue
      exact ⟨hlt, ⟨n, hfound⟩, hqueue⟩
  absent p _ := not_patched_startUp host p
  inside p hp := absurd hp (not_patched_startUp host p)
  short p hp := absurd hp (not_patched_startUp host p)

/-- The arrays draw the panel of start-up. -/
theorem draws_startUp (host : Host L) : Draws (layout (startUp host)) (foundPanel host) where
  ports u := by
    constructor
    · rintro ⟨i, hlt, hfound, hqueue⟩
      refine ⟨(i, u.queue), present_startUp_iff.mpr ⟨hlt, ⟨_, hfound⟩, hqueue⟩, ?_⟩
      show (startUp host).uid (i, u.queue) = u
      rw [Tables.uid, startUp_portMap_of_found hlt hfound]
    rintro ⟨p, hp, rfl⟩
    obtain ⟨hlt, ⟨n, hfound⟩, hqueue⟩ := present_startUp_iff.mp hp
    refine ⟨p.1, hlt, ?_, hqueue⟩
    show foundAs host p.1 = some ((startUp host).uid p).port
    rwa [Tables.uid, startUp_portMap_of_found hlt hfound]
  patch u v := by
    refine iff_of_false (fun h => by cases h) ?_
    rintro ⟨p, q, hpq, -⟩
    exact not_patched_startUp host p (layout_next_eq_some.mp hpq).1

/-! ## What can be seen -/

open Classical in
/-- What `status` writes for a port of the panel. -/
noncomputable def printed (A : Panel Uid) (u : Uid) : Entry where
  type := u.type
  number := u.id.toNat
  queue := if u.type = .phy ∧ { u with queue := 1 } ∈ A.ports then some u.queue else none

/-- The queue that a place is, by the device the ethdev is. -/
def PanelState.uidAt (s : PanelState L) (p : ℕ × ℕ) : Option Uid :=
  (s.dev p.1).map fun n => ⟨n.1, n.2, p.2⟩

/-- The pairs of queues that `forward` serves. -/
def PanelState.servedUids (s : PanelState L) : List (Option Uid × Option Uid) :=
  s.tables.served.map fun e => (s.uidAt e.1, s.uidAt e.2)

/-- `status` lists the ports and the patches of the panel, each of them once, `forward`
serves its patches, and every patch leads from a port of the panel to another. -/
structure Shows (s : PanelState L) (A : Panel Uid) : Prop where
  nodup_ports : (listedPorts s.tables).Nodup
  mem_ports : ∀ e, e ∈ listedPorts s.tables ↔ ∃ u ∈ A.ports, e = printed A u
  nodup_patches : (listedPatches s.tables).Nodup
  mem_patches : ∀ e, e ∈ listedPatches s.tables ↔
    ∃ u v, A.patch u = some v ∧ e = (printed A u, printed A v)
  nodup_served : s.servedUids.Nodup
  mem_served : ∀ e, e ∈ s.servedUids ↔ ∃ u v, A.patch u = some v ∧ e = (some u, some v)
  closed : A.Closed

section Shows

variable {s : PanelState L} {A : Panel Uid} {p : ℕ × ℕ} (h : Inv s)
include h

/-- What is written for two queues of the panel is different. -/
theorem Inv.portEntry_inj {q : ℕ × ℕ} (hp : s.tables.Present p)
    (hq : s.tables.Present q) (heq : portEntry s.tables p = portEntry s.tables q) : p = q := by
  obtain ⟨hreg, hlt⟩ := (h.present_iff p).mp hp
  obtain ⟨hreg', hlt'⟩ := (h.present_iff q).mp hq
  rw [portEntry, portEntry, Entry.mk.injEq] at heq
  obtain ⟨htype, hnumber, hqueue⟩ := heq
  have hslot : p.1 = q.1 := by
    have hp := h.number p.1 hreg
    have hq := h.number q.1 hreg'
    exact h.slot_inj hreg htype (by omega)
  refine Prod.ext hslot ?_
  by_cases hphy : (s.tables.portMap p.1).portType = .phy
  · by_cases hmax : s.tables.getPortMaxQueues p.1 = 1
    · rw [← hslot] at hlt'
      omega
    · rw [← hslot, if_pos ⟨hphy, hmax⟩, if_pos ⟨hphy, hmax⟩] at hqueue
      exact Option.some.inj hqueue
  · rw [h.snd_eq_zero hp hphy, h.snd_eq_zero hq (hslot ▸ hphy)]

theorem Inv.uidAt_eq (hp : s.tables.Present p) : s.uidAt p = some (s.tables.uid p) := by
  rw [PanelState.uidAt, (h.named p.1 ((h.present_iff p).mp hp).1).2]
  rfl

/-- The places that `append_patch_info_json` and `forward` stop at are those with a
lead. -/
theorem Inv.mem_filter_patched :
    p ∈ s.tables.scan.filter (fun p => s.tables.Present p ∧ s.tables.Patched p) ↔
      s.tables.Patched p := by
  rw [List.mem_filter, decide_eq_true_eq]
  constructor
  · exact fun hp => hp.2.2
  · intro hp
    have hpres := h.present_of_patched hp
    exact ⟨h.mem_scan_of_present hpres, hpres, hp⟩

theorem Inv.nodup_listedPorts : (listedPorts s.tables).Nodup := by
  refine List.Nodup.map_on ?_ (s.tables.nodup_scan.filter _)
  intro p hp q hq heq
  rw [List.mem_filter, decide_eq_true_eq] at hp hq
  exact h.portEntry_inj hp.2 hq.2 heq

/-- The pair of queues that `forward` serves at a place. -/
theorem Inv.uidAt_pair (hp : s.tables.Patched p) :
    (s.uidAt p, s.uidAt (s.tables.target p)) =
      (some (s.tables.uid p), some (s.tables.uid (s.tables.target p))) := by
  rw [h.uidAt_eq (h.present_of_patched hp), h.uidAt_eq (h.inside p hp)]

theorem Inv.nodup_servedUids : s.servedUids.Nodup := by
  rw [PanelState.servedUids, Tables.served, List.map_map]
  refine List.Nodup.map_on ?_ (s.tables.nodup_scan.filter _)
  intro p hp q hq heq
  rw [h.mem_filter_patched] at hp hq
  have heq : s.uidAt p = s.uidAt q := (Prod.mk.inj heq).1
  have hp := h.present_of_patched hp
  have hq := h.present_of_patched hq
  rw [h.uidAt_eq hp, h.uidAt_eq hq] at heq
  exact h.distinct p q hp hq (Option.some.inj heq)

variable (hA : Draws (layout s.tables) A)
include hA

/-- A physical port has several queues exactly if the panel has its queue 1. -/
theorem Inv.queue_one_iff (hp : s.tables.Present p) :
    { s.tables.uid p with queue := 1 } ∈ A.ports ↔ 1 < s.tables.getPortMaxQueues p.1 := by
  obtain ⟨hreg, hlt⟩ := (h.present_iff p).mp hp
  rw [hA.ports]
  constructor
  · rintro ⟨q, hq, hlabel⟩
    have hlabel : s.tables.uid q = { s.tables.uid p with queue := 1 } := hlabel
    have hq : s.tables.Present q := hq
    have hslot : p.1 = q.1 := by
      refine h.slot_inj hreg ?_ ?_
      · exact (congrArg Uid.type hlabel).symm
      · exact (congrArg Uid.id hlabel).symm
    have hsnd : q.2 = 1 := congrArg Uid.queue hlabel
    have := ((h.present_iff q).mp hq).2
    rw [hslot]
    omega
  · intro hmax
    exact ⟨(p.1, 1), (h.present_iff _).mpr ⟨hreg, hmax⟩, rfl⟩

theorem Inv.portEntry_eq
    (hp : s.tables.Present p) : portEntry s.tables p = printed A (s.tables.uid p) := by
  obtain ⟨hreg, hlt⟩ := (h.present_iff p).mp hp
  obtain ⟨hnonneg, hbound⟩ := h.number p.1 hreg
  have hnumber : ((s.tables.portMap p.1).id % 2 ^ 32).toNat = (s.tables.portMap p.1).id.toNat := by
    omega
  have hqueue : s.tables.getPortMaxQueues p.1 ≠ 1 ↔
      { s.tables.uid p with queue := 1 } ∈ A.ports := by
    rw [h.queue_one_iff hA hp]
    omega
  classical
  rw [portEntry, printed, Entry.mk.injEq]
  exact ⟨rfl, hnumber, if_congr (and_congr_right fun _ => hqueue) rfl rfl⟩

theorem Inv.appendPortString_eq
    (hp : s.tables.Present p) (hshort : (s.tables.portMap p.1).id < 2 ^ 16) :
    appendPortString s.tables p = printed A (s.tables.uid p) := by
  obtain ⟨hreg, hlt⟩ := (h.present_iff p).mp hp
  obtain ⟨hnonneg, -⟩ := h.number p.1 hreg
  have hnumber : uint16OfLong (s.tables.portMap p.1).id = (s.tables.portMap p.1).id.toNat := by
    rw [uint16OfLong]
    omega
  have hqueue : 1 < s.tables.getPortMaxQueues p.1 ↔
      { s.tables.uid p with queue := 1 } ∈ A.ports := (h.queue_one_iff hA hp).symm
  classical
  rw [appendPortString, printed, Entry.mk.injEq]
  exact ⟨rfl, hnumber, if_congr (and_congr_right fun _ => hqueue) rfl rfl⟩

omit h in
/-- The patches of the panel, by the places they lead from. -/
theorem patch_iff_of_draws {u v : Uid} :
    A.patch u = some v ↔ ∃ p, s.tables.Patched p ∧ s.tables.uid p = u ∧
      s.tables.uid (s.tables.target p) = v := by
  rw [hA.patch]
  constructor
  · rintro ⟨p, q, hpq, hu, hv⟩
    obtain ⟨hp, rfl⟩ := layout_next_eq_some.mp hpq
    exact ⟨p, hp, hu, hv⟩
  · rintro ⟨p, hp, hu, hv⟩
    exact ⟨p, s.tables.target p, layout_next_eq_some.mpr ⟨hp, rfl⟩, hu, hv⟩

theorem Inv.mem_listedPorts (e : Entry) :
    e ∈ listedPorts s.tables ↔ ∃ u ∈ A.ports, e = printed A u := by
  rw [listedPorts, List.mem_map]
  constructor
  · rintro ⟨p, hp, rfl⟩
    rw [List.mem_filter, decide_eq_true_eq] at hp
    exact ⟨s.tables.uid p, (hA.ports _).mpr ⟨p, hp.2, rfl⟩, h.portEntry_eq hA hp.2⟩
  rintro ⟨u, hu, rfl⟩
  obtain ⟨p, hp, rfl⟩ := (hA.ports u).mp hu
  have hp : s.tables.Present p := hp
  refine ⟨p, ?_, h.portEntry_eq hA hp⟩
  rw [List.mem_filter, decide_eq_true_eq]
  exact ⟨h.mem_scan_of_present hp, hp⟩

/-- What `status` writes for a patch. -/
theorem Inv.appendPortString_pair (hp : s.tables.Patched p) :
    (appendPortString s.tables p, appendPortString s.tables (s.tables.target p)) =
      (printed A (s.tables.uid p), printed A (s.tables.uid (s.tables.target p))) := by
  obtain ⟨hfrom, hto⟩ := h.short p hp
  rw [h.appendPortString_eq hA (h.present_of_patched hp) hfrom,
    h.appendPortString_eq hA (h.inside p hp) hto]

theorem Inv.nodup_listedPatches : (listedPatches s.tables).Nodup := by
  refine List.Nodup.map_on ?_ (s.tables.nodup_scan.filter _)
  intro p hp q hq heq
  rw [h.mem_filter_patched] at hp hq
  rw [h.appendPortString_pair hA hp, h.appendPortString_pair hA hq] at heq
  have heq := (Prod.mk.inj heq).1
  have hp := h.present_of_patched hp
  have hq := h.present_of_patched hq
  rw [← h.portEntry_eq hA hp, ← h.portEntry_eq hA hq] at heq
  exact h.portEntry_inj hp hq heq

theorem Inv.mem_listedPatches (e : Entry × Entry) :
    e ∈ listedPatches s.tables ↔
      ∃ u v, A.patch u = some v ∧ e = (printed A u, printed A v) := by
  rw [listedPatches, List.mem_map]
  simp only [h.mem_filter_patched, patch_iff_of_draws hA]
  constructor
  · rintro ⟨p, hp, rfl⟩
    exact ⟨_, _, ⟨p, hp, rfl, rfl⟩, h.appendPortString_pair hA hp⟩
  · rintro ⟨_, _, ⟨p, hp, rfl, rfl⟩, rfl⟩
    exact ⟨p, hp, h.appendPortString_pair hA hp⟩

theorem Inv.mem_servedUids (e : Option Uid × Option Uid) :
    e ∈ s.servedUids ↔ ∃ u v, A.patch u = some v ∧ e = (some u, some v) := by
  rw [PanelState.servedUids, Tables.served, List.map_map, List.mem_map]
  simp only [h.mem_filter_patched, patch_iff_of_draws hA, Function.comp_apply]
  constructor
  · rintro ⟨p, hp, rfl⟩
    exact ⟨_, _, ⟨p, hp, rfl, rfl⟩, h.uidAt_pair hp⟩
  · rintro ⟨_, _, ⟨p, hp, rfl, rfl⟩, rfl⟩
    exact ⟨p, hp, h.uidAt_pair hp⟩

/-- **What is drawn is what is shown.** -/
theorem Inv.shows : Shows s A where
  nodup_ports := h.nodup_listedPorts
  mem_ports := h.mem_listedPorts hA
  nodup_patches := h.nodup_listedPatches hA
  mem_patches := h.mem_listedPatches hA
  nodup_served := h.nodup_servedUids
  mem_served := h.mem_servedUids hA
  closed := hA.closed h.layout_inside

end Shows

/-! ## Runs -/

/-- `spp_nfv` on a machine, taking one command after the other. -/
def panelSystem (host : Host L) : System (PanelState L) PanelCmd where
  init s := s = startState host
  step := PanelStep

/-- The panel after the commands of a run. -/
def panelAfter (host : Host L) : List (PanelState L × PanelCmd) → Panel Uid
  | [] => foundPanel host
  | e :: hist => apply (panelAfter host hist) e.2

/-- **The patch panel of `spp_nfv`.**  If the ports found at start-up can be told apart
and every command is one that the arrays follow, then after any number of commands
`status` lists exactly the ports and patches of the panel, `forward` serves exactly its
patches, and none of them leads to a port that is not there. -/
theorem shows_panelAfter {host : Host L} (hhost : Proper host)
    {hist : List (PanelState L × PanelCmd)} {s : PanelState L}
    (hrun : Run (panelSystem host) hist s) (hG : Guarded Harmless hist) :
    Shows s (panelAfter host hist) := by
  have hJ : Inv s ∧ Draws (layout s.tables) (panelAfter host hist) := by
    refine hrun.invariant_trace (G := Harmless)
      (J := fun hist s => Inv s ∧ Draws (layout s.tables) (panelAfter host hist)) ?_ ?_ hG
    · rintro s rfl
      exact ⟨hhost.inv_startState, draws_startUp host⟩
    · rintro hist s c s' ⟨hinv, hdraws⟩ hc hstep
      exact hinv.step hc hstep hdraws
  exact hJ.1.shows hJ.2

/-! ## Two runs -/

theorem proper_empty (L : Limits) : Proper (Host.empty L) where
  distinct i k n _ hi _ := by cases hi
  number i n hi := by cases hi
  single i n hi _ := by cases hi

/-- Two rings are added and patched, and the second one is deleted.  The patch was the one
at which the loop stops. -/
theorem shows_panelAfter_del_ring :
    ∃ hist s, Run (panelSystem (Host.empty .default)) hist s ∧
      hist.map Prod.snd = [.del ⟨.ring, 1, 0⟩, .patch ⟨.ring, 0, 0⟩ ⟨.ring, 1, 0⟩,
        .add ⟨.ring, 1, 0⟩ 1, .add ⟨.ring, 0, 0⟩ 0] ∧
      Guarded Harmless hist ∧ Shows s (panelAfter (Host.empty .default) hist) := by
  have h0 : Run (panelSystem (Host.empty .default)) [] (startState (Host.empty .default)) :=
    .start rfl
  have h1 := h0.snoc (.add (u := ⟨.ring, 0, 0⟩) (d := 0) (by decide) (by decide)
    ⟨by decide, Or.inr ⟨rfl, fun i h => by cases h⟩⟩ rfl)
  have h2 := h1.snoc (.add (u := ⟨.ring, 1, 0⟩) (d := 1) (by decide) (by decide)
    ⟨by decide, Or.inr ⟨rfl, update_ne_some (by decide) fun i h => by cases h⟩⟩ rfl)
  have h3 := h2.snoc (.patch (u := ⟨.ring, 0, 0⟩) (v := ⟨.ring, 1, 0⟩)
    (by decide) (by decide) (by decide) (by decide) rfl)
  have h4 := h3.snoc (.del (u := ⟨.ring, 1, 0⟩) (by decide) (by decide) rfl)
  refine ⟨_, _, h4, rfl, ?hG, shows_panelAfter (proper_empty _) h4 ?hG⟩
  refine guarded_cons.mpr ⟨⟨rfl, by decide⟩, guarded_cons.mpr ⟨⟨by decide, by decide⟩, ?_⟩⟩
  exact guarded_cons.mpr ⟨rfl, guarded_cons.mpr ⟨rfl, guarded_nil _⟩⟩

/-- Two rings are patched to each other, and a vhost is added and deleted.  The loop of
the deletion stops at the first ring, and its patch is gone. -/
theorem not_shows_panelAfter_del_vhost :
    ∃ hist s, Run (panelSystem (Host.empty .default)) hist s ∧
      hist.map Prod.snd = [.del ⟨.vhost, 0, 0⟩, .patch ⟨.ring, 0, 0⟩ ⟨.ring, 1, 0⟩,
        .add ⟨.vhost, 0, 0⟩ 2, .add ⟨.ring, 1, 0⟩ 1, .add ⟨.ring, 0, 0⟩ 0] ∧
      (panelAfter (Host.empty .default) hist).patch ⟨.ring, 0, 0⟩ = some ⟨.ring, 1, 0⟩ ∧
      listedPatches s.tables = [] ∧ s.servedUids = [] ∧
      ¬ Shows s (panelAfter (Host.empty .default) hist) := by
  have h0 : Run (panelSystem (Host.empty .default)) [] (startState (Host.empty .default)) :=
    .start rfl
  have h1 := h0.snoc (.add (u := ⟨.ring, 0, 0⟩) (d := 0) (by decide) (by decide)
    ⟨by decide, Or.inr ⟨rfl, fun i h => by cases h⟩⟩ rfl)
  have h2 := h1.snoc (.add (u := ⟨.ring, 1, 0⟩) (d := 1) (by decide) (by decide)
    ⟨by decide, Or.inr ⟨rfl, update_ne_some (by decide) fun i h => by cases h⟩⟩ rfl)
  have h3 := h2.snoc (.add (u := ⟨.vhost, 0, 0⟩) (d := 2) (by decide) (by decide)
    ⟨by decide, Or.inr ⟨rfl, update_ne_some (by decide)
      (update_ne_some (by decide) fun i h => by cases h)⟩⟩ rfl)
  have h4 := h3.snoc (.patch (u := ⟨.ring, 0, 0⟩) (v := ⟨.ring, 1, 0⟩)
    (by decide) (by decide) (by decide) (by decide) rfl)
  have h5 := h4.snoc (.del (u := ⟨.vhost, 0, 0⟩) (by decide) (by decide) rfl)
  refine ⟨_, _, h5, rfl, rfl, by decide, by decide, fun hshows => ?_⟩
  have hmem := (hshows.mem_patches _).mpr ⟨⟨.ring, 0, 0⟩, ⟨.ring, 1, 0⟩, rfl, rfl⟩
  exact List.not_mem_nil hmem

end SoftPatchPanel.Nfv
