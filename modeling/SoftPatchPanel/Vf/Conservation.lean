import Mathlib.Algebra.BigOperators.Fin
import Mathlib.Tactic.Ring
import SoftPatchPanel.Vf.ClassifierReport
import SoftPatchPanel.Vf.Forward

/-!
# References to mbufs are conserved, unless a tag does not fit

A worker holds a reference to every mbuf it has received, and one more for each that
it has added.  In the end each of them ought to be queued, handed to the driver, or
freed, and be counted once.  The code keeps to this with one exception.  If a packet
cannot be edited on its way to the driver, `vlan_operation` frees it and all behind
it, and reports to its caller how many are left; the caller takes the others for
packets that the driver refused, and frees them a second time.

`Surplus` is the account that is kept through the functions: what is counted more than
once is a list of packets, and the list is empty exactly if every call for room on a
tx port was answered.  Each function of the data path has a surplus with its own
change in the references at hand, and so has an iteration
(`VfWorker.surplus_iterate`).
-/

namespace SoftPatchPanel.Vf

open Worker
open Function (update update_self update_of_ne)

/-! ## The account of the data path -/

/-- The references to an mbuf that have left the worker, less those it has got. -/
def balance (w : DataPath) (x : ℕ) : ℤ :=
  (w.sent.map Sent.mbuf).count x + w.freed.count x - (w.received.count x + w.added x)

/-- The account is off by `δ`: some packets are counted twice, and there are none
exactly if every call for room on a tx port was answered. -/
def Surplus (w w' : DataPath) (δ : ℕ → ℤ) : Prop :=
  ∃ (used : List Bool) (twice : List ℕ), w.answers.null .tx = used ++ w'.answers.null .tx ∧
    (twice = [] ↔ true ∉ used) ∧ ∀ x, δ x = twice.count x

namespace Surplus

variable {w w₁ w₂ : DataPath} {δ δ₁ δ₂ : ℕ → ℤ}

theorem exact (hnull : w₁.answers.null .tx = w.answers.null .tx) (hδ : ∀ x, δ x = 0) :
    Surplus w w₁ δ :=
  ⟨[], [], hnull.symm, by simp, fun x => by simp [hδ x]⟩

theorem trans (h₁ : Surplus w w₁ δ₁) (h₂ : Surplus w₁ w₂ δ₂) (hδ : ∀ x, δ x = δ₁ x + δ₂ x) :
    Surplus w w₂ δ := by
  obtain ⟨used₁, twice₁, hnull₁, hiff₁, hcount₁⟩ := h₁
  obtain ⟨used₂, twice₂, hnull₂, hiff₂, hcount₂⟩ := h₂
  refine ⟨used₁ ++ used₂, twice₁ ++ twice₂, ?_, ?_, fun x => ?_⟩
  · rw [hnull₁, hnull₂, List.append_assoc]
  · rw [List.append_eq_nil_iff, hiff₁, hiff₂, List.mem_append, not_or]
  · rw [hδ, hcount₁, hcount₂, List.count_append]
    push_cast
    rfl

theorem congr (h : Surplus w w₁ δ₁) (hδ : ∀ x, δ x = δ₁ x) : Surplus w w₁ δ :=
  h.trans (exact rfl fun _ => rfl) fun x => by rw [hδ, add_zero]

/-- **The rule for loops.**  If each round is off by its change of the account less its
gain, then so is the loop, with the gains added up. -/
theorem foldl {S ι : Type} {D : S → DataPath} {A : S → ℕ → ℤ} {I : S → Prop}
    {f : S → ι → S} {g : ι → ℕ → ℤ} {l : List ι} (hstep : ∀ s, I s → ∀ i ∈ l, I (f s i) ∧
      Surplus (D s) (D (f s i)) fun x => A (f s i) x - A s x - g i x) {s : S} (hs : I s) :
    I (l.foldl f s) ∧ Surplus (D s) (D (l.foldl f s)) fun x =>
      A (l.foldl f s) x - A s x - (l.map fun i => g i x).sum := by
  induction l generalizing s with
  | nil => exact ⟨hs, exact rfl fun x => by simp⟩
  | cons i l ih =>
    obtain ⟨hI, hone⟩ := hstep s hs i List.mem_cons_self
    obtain ⟨hI', hrest⟩ := ih (fun s hs j hj => hstep s hs j (List.mem_cons_of_mem i hj)) hI
    refine ⟨hI', hone.trans hrest fun x => ?_⟩
    rw [List.foldl_cons, List.map_cons, List.sum_cons]
    ring

end Surplus

theorem count_take_add_count_drop (pkts : List ℕ) (n x : ℕ) :
    ((pkts.take n).count x : ℤ) + (pkts.drop n).count x = pkts.count x := by
  rw [← Nat.cast_add, ← List.count_append, List.take_append_drop]

theorem balance_free (xs : List ℕ) (w : DataPath) (x : ℕ) :
    balance (w.free xs) x = balance w x + xs.count x := by
  simp only [balance, DataPath.free, List.count_append]
  push_cast
  ring

theorem surplus_free (xs : List ℕ) (w : DataPath) :
    Surplus w (w.free xs) fun x => balance (w.free xs) x - balance w x - xs.count x :=
  .exact rfl fun x => by rw [balance_free]; ring

theorem balance_of_edits {dir : PortDir} {used : List Bool} {w w₁ : DataPath}
    (h : Edits dir used w w₁) (x : ℕ) : balance w₁ x = balance w x := by
  unfold balance
  rw [h.sent, h.freed, h.received, h.added]

/-- **Sending a burst**, as `transmit_packets` and `forward_packets` do it: whatever
`sppwk_eth_vlan_tx_burst` does not count is freed.  What it has freed itself is then
counted twice. -/
theorem surplus_send (pc : PortCapability) (portId : ℕ) (queueId : ℤ) (pkts : List ℕ)
    (w : DataPath) {r : ℕ × DataPath} (hr : sppwkEthVlanTxBurst pc portId queueId pkts w = r) :
    Surplus w (r.2.free (pkts.drop r.1)) fun x =>
      balance (r.2.free (pkts.drop r.1)) x - balance w x - pkts.count x := by
  obtain ⟨n, m, w₁, used, txBurst, hsend, hmn, hn, hedits, hiff⟩ :=
    sppwkEthVlanTxBurst_edits pc portId queueId pkts w
  rw [hsend] at hr
  subst hr
  refine ⟨used, pkts.drop n, hedits.null, ?_, fun x => ?_⟩
  · rw [List.drop_eq_nil_iff, ← hiff]
    omega
  have hsplit := count_take_add_count_drop pkts m x
  beta_reduce
  rw [balance_free, ← balance_of_edits hedits]
  simp only [balance, DataPath.free, List.map_append, List.map_map, Function.comp_def,
    List.map_id', List.count_append]
  push_cast
  omega

/-- **Receiving a burst.**  What the VLAN operation gives up is freed; the rest is in
the worker's hands. -/
theorem surplus_receive (pc : PortCapability) (portId : ℕ) (w : DataPath) {r : List ℕ × DataPath}
    (hr : sppwkEthVlanRxBurst pc portId w = r) :
    Surplus w r.2 fun x => balance r.2 x - balance w x + r.1.count x := by
  unfold sppwkEthVlanRxBurst at hr
  simp only at hr
  have hrx (x : ℕ) : balance w.ethRxBurst.2 x = balance w x - w.ethRxBurst.1.count x := by
    simp only [balance, DataPath.ethRxBurst, List.count_append]
    push_cast
    ring
  split at hr
  · rename_i hzero
    subst hr
    have hnil := List.eq_nil_of_length_eq_zero hzero
    refine .exact rfl fun x => ?_
    rw [hrx, hnil]
    simp
  obtain ⟨n, w₁, used, hop, hn, hedits, -⟩ :=
    vlanOperation_edits pc portId .rx w.ethRxBurst.1 w.ethRxBurst.2
  rw [hop] at hr
  subst hr
  refine .exact (hedits.other .tx (by decide)) fun x => ?_
  have hsplit := count_take_add_count_drop w.ethRxBurst.1 n x
  have hfree := balance_free (w.ethRxBurst.1.drop n) w₁ x
  rw [balance_of_edits hedits, hrx] at hfree
  change balance (w₁.free (w.ethRxBurst.1.drop n)) x - balance w x +
    ((w.ethRxBurst.1.take n).count x : ℤ) = 0
  omega

/-! ## The account of a side -/

theorem sum_update {ι α : Type} [DecidableEq ι] (t : Finset ι) (f : ι → α) (g : α → ℤ) {i : ι}
    (hi : i ∈ t) (a : α) :
    ∑ j ∈ t, g (update f i a j) = ∑ j ∈ t, g (f j) - g (f i) + g a := by
  rw [← Finset.add_sum_erase t _ hi, ← Finset.add_sum_erase t (fun j => g (f j)) hi,
    update_self]
  have hrest : ∑ j ∈ t.erase i, g (update f i a j) = ∑ j ∈ t.erase i, g (f j) := by
    refine Finset.sum_congr rfl fun j hj => ?_
    rw [update_of_ne (Finset.ne_of_mem_erase hj)]
  rw [hrest]
  ring

/-- How often an mbuf is in the buffers of a side with `N` tx ports. -/
def ClsCompInfo.queued (N : ℕ) (cmp : ClsCompInfo) (x : ℕ) : ℤ :=
  ∑ i ∈ Finset.range N, ((cmp.txPortsI i).pkts.count x : ℤ)

/-- The indices and counters of the side are inside arrays of `N` ports. -/
structure ClsCompInfo.Fits (N : ℕ) (cmp : ClsCompInfo) : Prop where
  nofTxPorts : cmp.nofTxPorts ≤ N
  nofClsPorts : ∀ v mac, cmp.macClfs v = some mac → mac.clsPorts.length ≤ N
  clsPorts : ∀ v mac, cmp.macClfs v = some mac → ∀ i ∈ mac.clsPorts, i < N
  default : ∀ v mac i, cmp.macClfs v = some mac → mac.defaultClsIdx = some i → i < N
  table : ∀ v mac a i, cmp.macClfs v = some mac → mac.clsTbl.lookup a = some i → i < N

variable {N i : ℕ} {cmp cmp' : ClsCompInfo} {tx : List PortInfo} {s : ClsSide}

theorem ClsCompInfo.Fits.of_emptied_eq (h : cmp.Fits N) (he : cmp'.emptied = cmp.emptied) :
    cmp'.Fits N := by
  have hclfs := ClsCompInfo.macClfs_of_emptied_eq he
  have htx := ClsCompInfo.nofTxPorts_of_emptied_eq he
  constructor
  · exact htx ▸ h.nofTxPorts
  · exact hclfs ▸ h.nofClsPorts
  · exact hclfs ▸ h.clsPorts
  · exact hclfs ▸ h.default
  · exact hclfs ▸ h.table

/-- A side that `init_component_info` has built fits into arrays as long as the list of
ports. -/
theorem Tabled.fits (h : Tabled tx cmp) (hnof : cmp.nofTxPorts = tx.length)
    (hlen : tx.length ≤ N) : cmp.Fits N := by
  have hlt {p : PortInfo → Bool} {i : ℕ} (hi : i ∈ tx.findIdxs p) : i < N :=
    (List.mem_findIdxs_iff_exists_getElem_pos.mp hi).1.trans_le hlen
  constructor
  · rwa [hnof]
  · intro v mac hmac
    rw [(h.registered v mac hmac).clsPorts, List.length_findIdxs]
    exact List.countP_le_length.trans hlen
  · intro v mac hmac i hi
    rw [(h.registered v mac hmac).clsPorts] at hi
    exact hlt hi
  · intro v mac i hmac hi
    rw [(h.registered v mac hmac).default] at hi
    exact hlt (List.mem_of_getLast? hi)
  · intro v mac a i hmac hi
    rw [(h.registered v mac hmac).table] at hi
    exact hlt (List.mem_of_getLast? hi)

theorem fits_zero (N : ℕ) : ClsCompInfo.zero.Fits N := by
  constructor
  · exact Nat.zero_le N
  all_goals
    intro v mac
    simp [ClsCompInfo.zero]

/-- An update that succeeds on a clean side leaves tables that fit. -/
theorem fits_updateClassifier {E : HashEnv} {early : Bool} {name : CString}
    {rx : List PortInfo} {g g' : ClsMngInfo} (h : ∀ side, (g.compList side).Fits N)
    (hclean : ∀ v, (g.compList g.updIndex).macClfs v = none) (hlen : tx.length ≤ N)
    (hok : updateClassifier E early name rx tx g = (.ok, g')) (side : Side) :
    (g'.compList side).Fits N := by
  obtain ⟨g₀, cmp, hg₀, hbuild, rfl⟩ := updateClassifier_eq_ok hok
  obtain ⟨hbuilt, hnof, -⟩ := built_of_initComponentInfo hclean hbuild
  have hlist : g₀.compList = g.compList := by
    subst hg₀
    unfold ClsMngInfo.changeIndex
    split
    · split <;> rfl
    · rfl
  dsimp only
  rw [hlist]
  rcases eq_or_ne side g₀.refIndex with rfl | hne
  · rw [update_self]
    exact fits_zero N
  rw [update_of_ne hne]
  rcases eq_or_ne side g.updIndex with rfl | hne'
  · rw [update_self]
    exact (hbuilt.withName name).tabled.fits hnof hlen
  · rw [update_of_ne hne']
    exact h side

/-- The account of a side. -/
def ClsSide.account (N : ℕ) (s : ClsSide) (x : ℕ) : ℤ := s.1.queued N x + balance s.2 x

open ClsSide (account)

theorem queued_setTxPort (cmp : ClsCompInfo) (hi : i < N) (port : ClsPortInfo) (x : ℕ) :
    (cmp.setTxPort i port).queued N x =
      cmp.queued N x - (cmp.txPortsI i).pkts.count x + port.pkts.count x :=
  sum_update (Finset.range N) cmp.txPortsI (fun port => (port.pkts.count x : ℤ))
    (Finset.mem_range.mpr hi) port

section

variable (pc : PortCapability)

/-- `transmit_packets` leaves nothing in the buffer. -/
theorem surplus_transmitPort (hi : i < N) (s : ClsSide) :
    Surplus s.2 (transmitPort pc i s).2 fun x =>
      account N (transmitPort pc i s) x - account N s x := by
  have hsend := surplus_send pc (s.1.txPortsI i).ethdevPortId (s.1.txPortsI i).queueNo
    (s.1.txPortsI i).pkts s.2 rfl
  refine hsend.congr fun x => ?_
  have hqueued := queued_setTxPort s.1 hi { s.1.txPortsI i with pkts := [] } x
  simp only [account, transmitPort, transmitPackets]
  rw [hqueued]
  simp only [List.count_nil]
  push_cast
  ring

/-- `push_packet` takes over the reference at hand. -/
theorem surplus_pushPacket (y : ℕ) (hi : i < N) (s : ClsSide) :
    Surplus s.2 (pushPacket pc y s i).2 fun x =>
      account N (pushPacket pc y s i) x - account N s x - [y].count x := by
  set port := { s.1.txPortsI i with pkts := (s.1.txPortsI i).pkts ++ [y] } with hport
  have hput (x : ℕ) : account N (s.1.setTxPort i port, s.2) x =
      account N s x + [y].count x := by
    simp only [account]
    rw [queued_setTxPort s.1 hi, hport]
    simp only [List.count_append]
    push_cast
    ring
  unfold pushPacket
  simp only [← hport]
  split
  · refine (surplus_transmitPort pc hi (s.1.setTxPort i port, s.2)).congr fun x => ?_
    rw [hput]
    ring
  · refine .exact rfl fun x => ?_
    rw [hput]
    ring

/-- Queuing a packet on several ports takes over as many references. -/
theorem surplus_foldl_pushPacket (y : ℕ) {ports : List ℕ}
    (hports : ∀ i ∈ ports, i < N) (s : ClsSide) :
    Surplus s.2 (ports.foldl (pushPacket pc y) s).2 fun x =>
      account N (ports.foldl (pushPacket pc y) s) x - account N s x -
        ports.length * [y].count x := by
  have hloop := (Surplus.foldl (I := fun _ => True) (f := pushPacket pc y) (l := ports)
    (fun s _ i hi => ⟨trivial, surplus_pushPacket pc y (hports i hi) s⟩) (s := s) trivial).2
  refine hloop.congr fun x => ?_
  rw [List.map_const', List.sum_replicate, nsmul_eq_mul]

theorem surplus_transmitAllPacket (h : s.1.Fits N) :
    Surplus s.2 (transmitAllPacket pc s).2 fun x =>
      account N (transmitAllPacket pc s) x - account N s x := by
  have hloop := (Surplus.foldl (I := fun _ => True) (l := List.range s.1.nofTxPorts)
    (f := fun s i => if (s.1.txPortsI i).pkts.length ≠ 0 then transmitPort pc i s else s)
    (D := Prod.snd) (A := account N) (g := fun _ _ => 0)
    (fun t _ i hi => ⟨trivial, ?_⟩) (s := s) trivial).2
  · refine hloop.congr fun x => ?_
    simp [transmitAllPacket]
  have hi : i < N := (List.mem_range.mp hi).trans_le h.nofTxPorts
  split
  · exact (surplus_transmitPort pc hi t).congr fun x => by ring
  · exact .exact rfl fun x => by ring

/-! ## Classification -/

theorem account_refcntUpdate (cmp : ClsCompInfo) (w : DataPath) (y : ℕ) (n : ℤ) (x : ℕ) :
    account N (cmp, w.refcntUpdate y n) x =
      account N (cmp, w) x - n * [y].count x := by
  have hadded : (w.refcntUpdate y n).added x = w.added x + n * [y].count x := by
    simp only [DataPath.refcntUpdate]
    rcases eq_or_ne x y with rfl | hxy
    · simp
    · rw [update_of_ne hxy, List.count_singleton]
      simp [hxy.symm]
  unfold account balance
  rw [hadded]
  simp only [DataPath.refcntUpdate]
  ring

theorem account_free (cmp : ClsCompInfo) (w : DataPath) (xs : List ℕ) (x : ℕ) :
    account N (cmp, w.free xs) x = account N (cmp, w) x + xs.count x := by
  simp only [account]
  rw [balance_free]
  ring

theorem getGeneralDefault_lt (h : cmp.Fits N)
    (hi : getGeneralDefaultClassifiedIndex cmp = some i) : i < N := by
  unfold getGeneralDefaultClassifiedIndex at hi
  split at hi
  · cases hi
  · rename_i mac hmac
    exact h.default _ mac i hmac hi

theorem surplus_pushGeneralDefault (y : ℕ) (h : s.1.Fits N) :
    Surplus s.2 (pushGeneralDefault pc y s).2 fun x =>
      account N (pushGeneralDefault pc y s) x - account N s x - [y].count x := by
  unfold pushGeneralDefault
  split
  · exact .exact rfl fun x => by rw [account_free]; ring
  · rename_i i hi
    exact surplus_pushPacket pc y (getGeneralDefault_lt h hi) s

end

/-- A multicast packet is queued with as many references as there are ports. -/
theorem surplus_handleL2multicastPacket (hN : N < 2 ^ 15) (pc : PortCapability) (y : ℕ)
    (h : s.1.Fits N) :
    Surplus s.2 (handleL2multicastPacket pc y s).2 fun x =>
      account N (handleL2multicastPacket pc y s) x - account N s x -
        [y].count x := by
  unfold handleL2multicastPacket
  simp only
  split
  · exact surplus_pushGeneralDefault pc y h
  rename_i mac hmac
  split
  · exact surplus_pushGeneralDefault pc y h
  rename_i hne
  set general := if getVid (s.2.frame y) ≠ vlanUntaggedVid then
    (getGeneralDefaultClassifiedIndex s.1).toList else [] with hgeneral
  have hsub : ∀ i ∈ general, getGeneralDefaultClassifiedIndex s.1 = some i := by
    intro i hi
    rw [hgeneral] at hi
    split at hi
    · exact Option.mem_toList.mp hi
    · simp at hi
  have hone : general.length ≤ 1 := length_ite_toList_le _ _
  have hports : ∀ i ∈ mac.clsPorts ++ general, i < N := by
    intro i hi
    rcases List.mem_append.mp hi with hi | hi
    · exact h.clsPorts _ mac hmac i hi
    · exact getGeneralDefault_lt h (hsub i hi)
  have hcount := h.nofClsPorts _ mac hmac
  have hcast : ((mac.clsPorts.length : ℤ) + general.length - 1).bmod (2 ^ 16) =
      (mac.clsPorts ++ general).length - 1 := by
    rw [List.length_append, bmod_nActClsd (Nat.pos_of_ne_zero hne) (hcount.trans_lt hN) hone]
    push_cast
    rfl
  rw [← List.foldl_append, hcast]
  refine (surplus_foldl_pushPacket pc y hports
    (s.1, s.2.refcntUpdate y ((mac.clsPorts ++ general).length - 1))).congr fun x => ?_
  rw [account_refcntUpdate]
  ring

theorem selectClassifiedIndex_lt (h : cmp.Fits N) {f : Frame}
    (hi : selectClassifiedIndex f cmp = .index i) : i < N := by
  have hofIdx {o : Option ℕ} (ho : Classified.ofIdx o = .index i) : o = some i := by
    cases o with
    | none => cases ho
    | some j =>
      cases ho
      rfl
  unfold selectClassifiedIndex at hi
  simp only at hi
  split at hi
  · exact getGeneralDefault_lt h (hofIdx hi)
  rename_i mac hmac
  split at hi
  · rename_i j hj
    cases hi
    exact h.table _ mac _ _ hmac hj
  split at hi
  · cases hi
  · split at hi
    · exact getGeneralDefault_lt h (hofIdx hi)
    · exact h.default _ mac i hmac (hofIdx hi)

/-- **One packet.**  The reference at hand is queued, or freed. -/
theorem surplus_classifyPacket (hN : N < 2 ^ 15) (pc : PortCapability) (h : s.1.Fits N) (y : ℕ) :
    Surplus s.2 (classifyPacket pc s y).2 fun x =>
      account N (classifyPacket pc s y) x - account N s x - [y].count x := by
  unfold classifyPacket
  split
  · rename_i i hi
    exact surplus_pushPacket pc y (selectClassifiedIndex_lt h hi) s
  · exact .exact rfl fun x => by rw [account_free]; ring
  · exact surplus_handleL2multicastPacket hN pc y h

theorem sum_count_singleton (l : List ℕ) (x : ℕ) :
    (l.map fun y => ([y].count x : ℤ)).sum = l.count x := by
  induction l with
  | nil => rfl
  | cons y l ih =>
    rw [List.map_cons, List.sum_cons, ih, ← Nat.cast_add, ← List.count_append,
      List.singleton_append]

/-- **A burst.** -/
theorem surplus_classifyRxPackets (hN : N < 2 ^ 15) (pc : PortCapability) (rxPkts : List ℕ)
    (h : s.1.Fits N) :
    Surplus s.2 (classifyRxPackets pc rxPkts s).2 fun x =>
      account N (classifyRxPackets pc rxPkts s) x - account N s x -
        rxPkts.count x := by
  have hloop := (Surplus.foldl (I := fun s : ClsSide => s.1.Fits N) (l := rxPkts)
    (f := classifyPacket pc) (D := Prod.snd) (A := account N)
    (fun t ht y _ => ⟨ht.of_emptied_eq (emptied_classifyPacket pc t y),
      surplus_classifyPacket hN pc ht y⟩) h).2
  refine hloop.congr fun x => ?_
  rw [sum_count_singleton]
  rfl

theorem surplus_receivePackets (hN : N < 2 ^ 15) (pc : PortCapability) (h : s.1.Fits N) :
    Surplus s.2 (receivePackets pc s).2 fun x =>
      account N (receivePackets pc s) x - account N s x := by
  unfold receivePackets
  simp only
  generalize hr : sppwkEthVlanRxBurst pc s.1.rxPortI.ethdevPortId s.2 = r
  refine (surplus_receive pc _ s.2 hr).trans
    (surplus_classifyRxPackets hN pc r.1 (s := (s.1, r.2)) h) fun x => ?_
  simp only [account]
  ring

/-! ## The workers -/

namespace VfWorker

/-- How often an mbuf is in the tx buffers of a component. -/
def queued (N : ℕ) : VfWorker → ℕ → ℤ
  | cls s, x => ∑ side, (s.mng.compList side).queued N x
  | fwd _, _ => 0

/-- The tables of the worker are as the updates build them: inside their arrays, and
with one tx port for a forwarder or merger. -/
def Fits (N : ℕ) : VfWorker → Prop
  | cls s => ∀ side, (s.mng.compList side).Fits N
  | fwd s => ∀ side, (s.info.path side).OneTx

/-- The account of a worker. -/
def account (N : ℕ) (s : VfWorker) (x : ℕ) : ℤ := s.queued N x + balance s.data x

end VfWorker

/-- Work on the side in use is work of the worker. -/
theorem account_setRef (s : ClsWorker) (t : ClsSide) (x : ℕ) :
    (VfWorker.cls (s.setRef t)).account N x - (VfWorker.cls s).account N x =
      account N t x - account N s.ref x := by
  have hsum : (VfWorker.cls (s.setRef t)).queued N x =
      (VfWorker.cls s).queued N x - s.mng.ref.queued N x + t.1.queued N x :=
    sum_update Finset.univ s.mng.compList (fun cmp => cmp.queued N x)
      (Finset.mem_univ s.mng.refIndex) t.1
  unfold VfWorker.account account
  rw [hsum]
  show _ + balance t.2 x - (_ + balance s.data x) = _ - (s.mng.ref.queued N x + balance s.data x)
  ring

variable {s : ClsWorker}

theorem fits_setRef {t : ClsSide} (h : (VfWorker.cls s).Fits N)
    (ht : t.1.emptied = s.ref.1.emptied) : (VfWorker.cls (s.setRef t)).Fits N := by
  intro side
  show (update s.mng.compList s.mng.refIndex t.1 side).Fits N
  rcases eq_or_ne side s.mng.refIndex with rfl | hne
  · rw [update_self]
    exact (h _).of_emptied_eq ht
  · rw [update_of_ne hne]
    exact h side

/-- The exchange of the sides sends what the old side has queued. -/
theorem surplus_changeClassifierIndex (h : (VfWorker.cls s).Fits N) :
    (VfWorker.cls (changeClassifierIndex s)).Fits N ∧
      Surplus s.data (changeClassifierIndex s).data fun x =>
        (VfWorker.cls (changeClassifierIndex s)).account N x - (VfWorker.cls s).account N x := by
  unfold changeClassifierIndex
  split
  · have hsend := surplus_transmitAllPacket s.pc.swapRef (s := s.ref) (h s.mng.refIndex)
    have hempty := emptied_transmitAllPacket s.pc.swapRef s.ref
    exact ⟨fits_setRef h hempty, hsend.congr fun x => account_setRef s _ x⟩
  · exact ⟨h, .exact rfl fun x => by ring⟩

theorem surplus_classifyPackets (hN : N < 2 ^ 15) (drain : Bool) (h : (VfWorker.cls s).Fits N) :
    Surplus s.data (classifyPackets drain s).data fun x =>
      (VfWorker.cls (classifyPackets drain s)).account N x - (VfWorker.cls s).account N x := by
  obtain ⟨hfits, hchange⟩ := surplus_changeClassifierIndex h
  unfold classifyPackets
  simp only
  set s₁ := changeClassifierIndex s
  split
  · set t := if drain then transmitAllPacket s₁.pc s₁.ref else s₁.ref with ht
    have hdrain : t.1.Fits N ∧ Surplus s₁.data t.2 fun x =>
        account N t x - account N s₁.ref x := by
      rw [ht]
      split
      · exact ⟨(hfits s₁.mng.refIndex).of_emptied_eq (emptied_transmitAllPacket _ s₁.ref),
          surplus_transmitAllPacket s₁.pc (s := s₁.ref) (hfits s₁.mng.refIndex)⟩
      · exact ⟨hfits s₁.mng.refIndex, .exact rfl fun x => by ring⟩
    refine (hchange.trans hdrain.2 fun _ => rfl).trans
      (surplus_receivePackets hN s₁.pc hdrain.1) fun x => ?_
    have hset := account_setRef (N := N) s₁ (receivePackets s₁.pc t) x
    omega
  · exact hchange

/-- **One rx port of a forwarder or merger.**  The stale `nb_tx` does no harm if it is 0
or overwritten. -/
theorem surplus_forwardPort (pc : PortCapability) {s : ℕ × DataPath} (ports : Rxtx)
    (hstale : s.1 = 0 ∨ 0 ≤ ports.tx.ethdevPortId) :
    ((forwardPort pc s ports).1 = 0 ∨ 0 ≤ ports.tx.ethdevPortId) ∧
      Surplus s.2 (forwardPort pc s ports).2 fun x =>
        balance (forwardPort pc s ports).2 x - balance s.2 x := by
  unfold forwardPort
  simp only
  generalize hr : sppwkEthVlanRxBurst pc (portId16 ports.rx) s.2 = r
  have hreceive := surplus_receive pc (portId16 ports.rx) s.2 hr
  split
  · rename_i hzero
    refine ⟨hstale, hreceive.congr fun x => ?_⟩
    rw [List.eq_nil_of_length_eq_zero hzero]
    simp
  split
  · rename_i htx
    refine ⟨.inr htx, hreceive.trans (surplus_send pc _ ports.tx.queueNo r.1 r.2 rfl)
      fun x => ?_⟩
    ring
  rename_i htx
  have hzero : s.1 = 0 := hstale.resolve_right htx
  refine ⟨.inl hzero, hreceive.trans (surplus_free _ r.2) fun x => ?_⟩
  rw [hzero, List.drop_zero]
  ring

theorem surplus_forwardPackets {s : FwdWorker} (h : (VfWorker.fwd s).Fits N) :
    Surplus s.data (forwardPackets s).data fun x =>
      (VfWorker.fwd (forwardPackets s)).account N x - (VfWorker.fwd s).account N x := by
  have hchange : (changeForwardIndex s).data = s.data ∧
      (VfWorker.fwd (changeForwardIndex s)).Fits N := by
    unfold changeForwardIndex
    split <;> exact ⟨rfl, h⟩
  unfold forwardPackets
  simp only
  rw [← hchange.1]
  set s₁ := changeForwardIndex s
  split
  · rename_i hready
    obtain ⟨tx, htx⟩ := hchange.2 s₁.info.refIndex hready
    have hloop := (Surplus.foldl (I := fun s : ℕ × DataPath => s.1 = 0 ∨ 0 ≤ tx.ethdevPortId)
      (l := (List.range s₁.info.ref.nofRx).map s₁.info.ref.ports) (f := forwardPort s₁.pc)
      (D := Prod.snd) (A := fun s => balance s.2) (g := fun _ _ => 0) ?_
      (s := (0, s₁.data)) (.inl rfl)).2
    · refine hloop.congr fun x => ?_
      simp only [VfWorker.account, VfWorker.queued, VfWorker.data, List.map_const',
        List.sum_replicate, nsmul_zero, hchange.1]
      ring
    intro t ht ports hports
    obtain ⟨cnt, hcnt, rfl⟩ := List.mem_map.mp hports
    rw [← htx cnt (List.mem_range.mp hcnt)] at ht ⊢
    obtain ⟨hstale, hround⟩ := surplus_forwardPort s₁.pc (s₁.info.ref.ports cnt) ht
    exact ⟨hstale, hround.congr fun x => by ring⟩
  · refine .exact rfl fun x => ?_
    simp only [VfWorker.account, VfWorker.queued, VfWorker.data, hchange.1]
    ring

/-- **An iteration.** -/
theorem VfWorker.surplus_iterate (hN : N < 2 ^ 15) (drain : Bool) {s : VfWorker} (h : s.Fits N) :
    Surplus s.data (s.iterate drain).data fun x =>
      (s.iterate drain).account N x - s.account N x := by
  cases s with
  | cls s => exact surplus_classifyPackets hN drain h
  | fwd s => exact surplus_forwardPackets h

/-- Every reference that the worker has got since the first state, by receiving an mbuf
or by adding to its count, is accounted for in the second: it is queued, handed over
or freed, and counted once. -/
def Conserved (N : ℕ) (s s' : VfWorker) : Prop :=
  ∀ x, (s'.queued N x + (s'.data.sent.map Sent.mbuf).count x + s'.data.freed.count x) -
      (s.queued N x + (s.data.sent.map Sent.mbuf).count x + s.data.freed.count x) =
    (s'.data.received.count x + s'.data.added x) - (s.data.received.count x + s.data.added x)

theorem conserved_iff_account {s s' : VfWorker} :
    Conserved N s s' ↔ ∀ x, s'.account N x - s.account N x = 0 := by
  refine forall_congr' fun x => ?_
  unfold VfWorker.account balance
  omega

/-- **When references are conserved.**  Let the answers to the calls for room on tx
ports be those that the iteration reads.  Then it conserves the references exactly if
no call returned NULL, whatever the other answers are. -/
theorem conserved_iterate_iff (P : Platform) (drain : Bool) (s : VfWorker)
    (hfits : s.Fits P.maxQueuesPerPort) (hread : (s.iterate drain).data.answers.null .tx = []) :
    Conserved P.maxQueuesPerPort s (s.iterate drain) ↔ true ∉ s.data.answers.null .tx := by
  obtain ⟨used, twice, hnull, hiff, hcount⟩ :=
    VfWorker.surplus_iterate P.maxQueuesPerPort_lt drain hfits
  rw [hread, List.append_nil] at hnull
  rw [hnull, ← hiff, conserved_iff_account]
  constructor
  · intro h
    refine List.eq_nil_iff_forall_not_mem.mpr fun x hx => ?_
    have hzero := (hcount x).symm.trans (h x)
    have hpos := List.count_pos_iff.mpr hx
    omega
  · intro h x
    refine (hcount x).trans ?_
    rw [h]
    rfl

theorem VfWorker.fits_iterate (drain : Bool) {s : VfWorker} (h : s.Fits N) :
    (s.iterate drain).Fits N := by
  cases s with
  | cls s =>
    have hfits := (surplus_changeClassifierIndex h).1
    simp only [iterate, classifyPackets]
    split
    · refine fits_setRef hfits ((emptied_receivePackets _ _).trans ?_)
      split
      · exact emptied_transmitAllPacket _ _
      · rfl
    · exact hfits
  | fwd s =>
    simp only [iterate, forwardPackets, changeForwardIndex]
    split <;> split <;> exact h

/-- **Any number of iterations**, whatever is received meanwhile: the tables fit after each of
them, and references are conserved exactly if no call for room on a tx port, from the first
iteration to the last, returned NULL. -/
theorem conserved_iterates_iff (P : Platform) (drains : List Bool) (s : VfWorker)
    (hfits : s.Fits P.maxQueuesPerPort)
    (hread : (drains.foldl (fun s drain => s.iterate drain) s).data.answers.null .tx = []) :
    (∀ k, ((drains.take k).foldl (fun s drain => s.iterate drain) s).Fits P.maxQueuesPerPort) ∧
      (Conserved P.maxQueuesPerPort s (drains.foldl (fun s drain => s.iterate drain) s) ↔
        true ∉ s.data.answers.null .tx) := by
  refine ⟨fun k => List.foldlRecOn _ _ hfits fun s hs drain _ => s.fits_iterate drain hs, ?_⟩
  obtain ⟨-, used, twice, hnull, hiff, hcount⟩ := Surplus.foldl (l := drains) (D := VfWorker.data)
    (A := VfWorker.account P.maxQueuesPerPort) (g := fun _ _ => 0)
    (fun s hs drain _ => ⟨VfWorker.fits_iterate drain hs,
      (VfWorker.surplus_iterate P.maxQueuesPerPort_lt drain hs).congr fun x => by ring⟩) hfits
  rw [hread, List.append_nil] at hnull
  simp only [List.map_const', List.sum_replicate, nsmul_zero, sub_zero] at hcount
  rw [hnull, ← hiff, conserved_iff_account]
  simp only [hcount]
  refine ⟨fun h => List.eq_nil_iff_forall_not_mem.mpr fun x hx => ?_, fun h x => by rw [h]; rfl⟩
  have hpos := List.count_pos_iff.mpr hx
  have hzero := h x
  omega

/-- A physical port with at most one VLAN attribute. -/
def phyPort (ethdev : ℤ) (attr : PortAttrs) : PortInfo :=
  ⟨.phy, ethdev, ethdev, 0, ⟨0, [], ⟨0, 0, 0⟩⟩, Function.update (fun _ => .zero) 0 attr⟩

/-- A forwarder whose tx port adds a tag.  It is going to receive one untagged packet,
the driver has room for one, and `null` says whether the tag has. -/
def taggingForwarder (null : Bool) : VfWorker :=
  let rx := phyPort 0 .zero
  let tx := phyPort 1 ⟨.addVlan, .tx, ⟨100, 0, 0⟩⟩
  let packet : Frame := ⟨1, 2, 0x800, []⟩
  .fwd
    { pc := (updatePortAttrs .tx (updatePortAttrs .rx .init rx) tx).swapRef
      info := (updateForwarder ['f'] .fwd [rx] [tx] .init).2
      data := .init packet ⟨[[(7, packet)]], fun _ => [null], [1]⟩ }

theorem fits_taggingForwarder (null : Bool) (N : ℕ) : (taggingForwarder null).Fits N :=
  oneTx_updateForwarder (fun _ => oneTx_zero) _ _ _ _

/-- With room for the tag, the packet is handed over once. -/
theorem conserved_iterate_iff_tagged : Conserved 1024 (taggingForwarder false)
    ((taggingForwarder false).iterate false) :=
  (conserved_iterate_iff (.sample .vf) false (taggingForwarder false)
    (fits_taggingForwarder false _) (by decide +kernel)).mpr (by decide)

/-- And so it is if the forwarder goes on. -/
theorem conserved_iterates_iff_tagged :
    (∀ k, (([false, true].take k).foldl (fun s drain => s.iterate drain)
      (taggingForwarder false)).Fits 1024) ∧
    Conserved 1024 (taggingForwarder false)
      (((taggingForwarder false).iterate false).iterate true) := by
  obtain ⟨hfits, hiff⟩ := conserved_iterates_iff (.sample .vf) [false, true]
    (taggingForwarder false) (fits_taggingForwarder false _) (by decide +kernel)
  exact ⟨hfits, hiff.mpr (by decide)⟩

/-- Without, the packet is freed twice. -/
theorem not_conserved_of_null : ¬ Conserved 1024 (taggingForwarder true)
    ((taggingForwarder true).iterate false) := by
  intro h
  exact absurd (h 7) (by decide +kernel)

end SoftPatchPanel.Vf
