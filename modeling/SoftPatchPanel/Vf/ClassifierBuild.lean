import SoftPatchPanel.Vf.ClassifierTable

/-!
# What `init_component_info` builds

The loop of `init_component_info` goes through the tx ports of the component and
enters each into the classifier of its VLAN id.  Seen from the end, the tables are
functions of the list of ports: the registered ports of an id are the indices of the
ports with an entry for it, its default is the last index with the default address,
and an address is looked up at the last index that has it.  `Built` says this, one
round of the loop keeps it for the ports so far (`Built.initTxPort`), and so a call
that returns OK on a clean side has it for all of them (`built_of_initComponentInfo`).
-/

namespace SoftPatchPanel.Vf

open Worker
open Function (update update_self update_of_ne)

/-- The port has an entry for the VLAN id. -/
def inVlan (v : ℕ) (port : PortInfo) : Bool :=
  port.clsAttrs.macAddr ≠ 0 ∧ clsVid port = v

/-- The entry is the default of the VLAN id. -/
def isDefault (v : ℕ) (port : PortInfo) : Bool :=
  port.clsAttrs.macAddr = clsDummyAddr ∧ clsVid port = v

/-- The entry is for the address and the VLAN id. -/
def hasAddr (v : ℕ) (a : MacAddr) (port : PortInfo) : Bool :=
  inVlan v port ∧ port.clsAttrs.macAddr ≠ clsDummyAddr ∧ ethAddr port = a

/-- The classifier of a VLAN id is that of the ports so far. -/
structure MacBuilt (tx : List PortInfo) (v : ℕ) (mac : MacClassifier) : Prop where
  clsPorts : mac.clsPorts = tx.findIdxs (inVlan v)
  default : mac.defaultClsIdx = (tx.findIdxs (isDefault v)).getLast?
  table : ∀ a, mac.clsTbl.lookup a = (tx.findIdxs (hasAddr v a)).getLast?

/-- The side is that of the ports so far. -/
structure Built (tx : List PortInfo) (cmp : ClsCompInfo) : Prop where
  ports : ∀ i port, tx[i]? = some port → cmp.txPortsI i = .ofPort port i
  unregistered : ∀ v, cmp.macClfs v = none ↔ tx.findIdxs (inVlan v) = []
  registered : ∀ v mac, cmp.macClfs v = some mac → MacBuilt tx v mac
  entry : cmp.macAddrEntry = tx.any fun port => port.clsAttrs.macAddr ≠ 0

/-- The lookup tables of the side are those of the ports. -/
structure Tabled (tx : List PortInfo) (cmp : ClsCompInfo) : Prop where
  unregistered : ∀ v, cmp.macClfs v = none ↔ tx.findIdxs (inVlan v) = []
  registered : ∀ v mac, cmp.macClfs v = some mac → MacBuilt tx v mac

variable {tx rx : List PortInfo} {v : ℕ} {port : PortInfo} {mac mac' : MacClassifier}
  {cmp cmp' : ClsCompInfo} {E : HashEnv}

theorem Built.tabled (h : Built tx cmp) : Tabled tx cmp := ⟨h.unregistered, h.registered⟩

theorem inVlan_of_isDefault (h : isDefault v port = true) : inVlan v port = true := by
  simp only [isDefault, inVlan, decide_eq_true_eq] at h ⊢
  exact ⟨h.1 ▸ by decide, h.2⟩

theorem inVlan_of_hasAddr {a : MacAddr} (h : hasAddr v a port = true) : inVlan v port = true := by
  simp only [hasAddr, decide_eq_true_eq] at h
  exact h.1

/-! ## One VLAN id -/

theorem macBuilt_empty (h : tx.findIdxs (inVlan v) = []) : MacBuilt tx v .empty := by
  rw [List.findIdxs_eq_nil_iff] at h
  have hnil (p : PortInfo → Bool) (hp : ∀ port, p port = true → inVlan v port = true) :
      tx.findIdxs p = [] := by
    rw [List.findIdxs_eq_nil_iff]
    intro port hport
    by_contra hne
    exact absurd (hp port (by simpa using hne)) (by simp [h port hport])
  refine ⟨?_, ?_, fun a => ?_⟩
  · rw [hnil _ fun _ => id]
    rfl
  · rw [hnil _ fun _ => inVlan_of_isDefault]
    rfl
  · rw [hnil _ fun _ => inVlan_of_hasAddr]
    rfl

theorem findIdxs_concat (p : PortInfo → Bool) :
    (tx ++ [port]).findIdxs p = tx.findIdxs p ++ if p port then [tx.length] else [] := by
  simp [List.findIdxs_append, List.findIdxs_cons]

/-- A port without an entry for the id changes nothing. -/
theorem findIdxs_concat_of_not {p : PortInfo → Bool} (h : p port = false) :
    (tx ++ [port]).findIdxs p = tx.findIdxs p := by
  rw [findIdxs_concat, h]
  simp

theorem MacBuilt.skip (h : MacBuilt tx v mac) (hport : inVlan v port = false) :
    MacBuilt (tx ++ [port]) v mac := by
  have hnot (p : PortInfo → Bool) (hp : p port = true → inVlan v port = true) : p port = false := by
    by_contra hne
    exact absurd (hp (by simpa using hne)) (by simp [hport])
  refine ⟨?_, ?_, fun a => ?_⟩
  · rw [h.clsPorts, findIdxs_concat_of_not hport]
  · rw [h.default, findIdxs_concat_of_not (hnot _ inVlan_of_isDefault)]
  · rw [h.table, findIdxs_concat_of_not (hnot _ inVlan_of_hasAddr)]

/-- A port with an entry for the id is registered. -/
theorem MacBuilt.register (h : MacBuilt tx v mac) (hport : inVlan v port = true)
    (hok : registerPort E port tx.length mac = (.ok, mac')) : MacBuilt (tx ++ [port]) v mac' := by
  have hvid : clsVid port = v := by
    simp only [inVlan, decide_eq_true_eq] at hport
    exact hport.2
  unfold registerPort at hok
  simp only at hok
  split at hok
  · rename_i hdummy
    cases hok
    have hdef : isDefault v port = true := by simp [isDefault, hdummy, hvid]
    refine ⟨?_, ?_, fun a => ?_⟩
    · rw [findIdxs_concat, hport, h.clsPorts]
      rfl
    · rw [findIdxs_concat, hdef]
      simp
    · have hno : hasAddr v a port = false := by simp [hasAddr, hdummy]
      rw [findIdxs_concat_of_not hno]
      exact h.table a
  rename_i hdummy
  split at hok
  · cases hok
    have hdef : isDefault v port = false := by simp [isDefault, hdummy]
    refine ⟨?_, ?_, fun a => ?_⟩
    · rw [findIdxs_concat, hport, h.clsPorts]
      rfl
    · rw [findIdxs_concat_of_not hdef]
      exact h.default
    rcases eq_or_ne a (ethAddr port) with rfl | hne
    · have haddr : hasAddr v (ethAddr port) port = true := by simp [hasAddr, hdummy, hport]
      rw [findIdxs_concat, haddr, AList.lookup_insert]
      simp
    · have hno : hasAddr v a port = false := by simp [hasAddr, hne.symm]
      rw [findIdxs_concat_of_not hno, AList.lookup_insert_ne hne]
      exact h.table a
  · cases hok

/-! ## The loop -/

theorem getElem?_concat_cases {i : ℕ} {q : PortInfo} (h : (tx ++ [port])[i]? = some q) :
    (i = tx.length ∧ q = port) ∨ (i ≠ tx.length ∧ tx[i]? = some q) := by
  rcases lt_trichotomy i tx.length with hlt | rfl | hgt
  · rw [List.getElem?_append_left hlt] at h
    exact .inr ⟨hlt.ne, h⟩
  · rw [List.getElem?_concat_length] at h
    exact .inl ⟨rfl, (Option.some.inj h).symm⟩
  · rw [List.getElem?_eq_none (by simp; omega)] at h
    exact absurd h (by simp)

theorem ports_concat (h : ∀ i port, tx[i]? = some port → cmp.txPortsI i = .ofPort port i) :
    ∀ i q, (tx ++ [port])[i]? = some q →
      update cmp.txPortsI tx.length (.ofPort port tx.length) i = .ofPort q i := by
  intro i q hq
  rcases getElem?_concat_cases hq with ⟨rfl, rfl⟩ | ⟨hne, hq⟩
  · rw [update_self]
  · rw [update_of_ne hne]
    exact h i q hq

/-- The classifier of an id is that of the ports, whether it is there or would have to
be created. -/
theorem Tabled.getD (h : Tabled tx cmp) (v : ℕ) : MacBuilt tx v ((cmp.macClfs v).getD .empty) := by
  cases hv : cmp.macClfs v with
  | none => exact macBuilt_empty ((h.unregistered v).mp hv)
  | some mac => exact h.registered v mac hv

/-- **One round of the loop.** -/
theorem Built.initTxPort (h : Built tx cmp)
    (hok : initTxPort E port tx.length cmp = (.ok, cmp')) : Built (tx ++ [port]) cmp' := by
  unfold Vf.initTxPort at hok
  simp only at hok
  split at hok
  · rename_i hzero
    cases hok
    have hnot (v : ℕ) : inVlan v port = false := by simp [inVlan, hzero]
    refine ⟨ports_concat h.ports, fun v => ?_, fun v mac hmac => ?_, ?_⟩
    · rw [findIdxs_concat_of_not (hnot v)]
      exact h.unregistered v
    · exact (h.registered v mac hmac).skip (hnot v)
    · simp [h.entry, hzero]
  rename_i hne
  split at hok
  · cases hok
  obtain ⟨hret, rfl⟩ := Prod.mk.inj hok
  have hin : inVlan (clsVid port) port = true := by
    simp only [inVlan, decide_eq_true_eq]
    exact ⟨hne, trivial⟩
  have hother {v : ℕ} (hv : v ≠ clsVid port) : inVlan v port = false := by
    simp [inVlan, hv.symm]
  have hnew := (h.tabled.getD (clsVid port)).register (E := E) hin (Prod.ext hret rfl)
  refine ⟨ports_concat h.ports, fun v => ?_, fun v mac hmac => ?_, ?_⟩
  · show update cmp.macClfs (clsVid port) _ v = none ↔ _
    rcases eq_or_ne v (clsVid port) with rfl | hv
    · rw [update_self, findIdxs_concat, hin]
      simp
    · rw [update_of_ne hv, findIdxs_concat_of_not (hother hv)]
      exact h.unregistered v
  · change update cmp.macClfs (clsVid port) _ v = some mac at hmac
    rcases eq_or_ne v (clsVid port) with rfl | hv
    · rw [update_self] at hmac
      cases hmac
      exact hnew
    · rw [update_of_ne hv] at hmac
      exact (h.registered v mac hmac).skip (hother hv)
  · rw [List.any_append, List.any_cons, decide_eq_true hne]
    simp

/-- **The loop.**  It starts with the ports `tx` behind it. -/
theorem Built.initTxPorts {rest : List PortInfo} (h : Built tx cmp)
    (hok : initTxPorts E rest tx.length cmp = (.ok, cmp')) : Built (tx ++ rest) cmp' := by
  induction rest generalizing tx cmp with
  | nil =>
    cases hok
    rwa [List.append_nil]
  | cons port rest ih =>
    rw [Vf.initTxPorts] at hok
    split at hok
    · cases hok
    rename_i cmp₁ hone
    have hlen : tx.length + 1 = (tx ++ [port]).length := by simp
    rw [hlen] at hok
    have hrest := ih (h.initTxPort hone) hok
    rwa [List.append_assoc, List.singleton_append] at hrest

/-- The loop touches the tables of the tx ports only. -/
theorem initTxPort_frame (E : HashEnv) (port : PortInfo) (i : ℕ) (cmp : ClsCompInfo) :
    (initTxPort E port i cmp).2.nofTxPorts = cmp.nofTxPorts ∧
      (initTxPort E port i cmp).2.rxPortI = cmp.rxPortI := by
  unfold Vf.initTxPort
  simp only
  split
  · exact ⟨rfl, rfl⟩
  · split <;> exact ⟨rfl, rfl⟩

theorem initTxPorts_frame (E : HashEnv) (rest : List PortInfo) (i : ℕ) (cmp : ClsCompInfo) :
    (initTxPorts E rest i cmp).2.nofTxPorts = cmp.nofTxPorts ∧
      (initTxPorts E rest i cmp).2.rxPortI = cmp.rxPortI := by
  induction rest generalizing i cmp with
  | nil => exact ⟨rfl, rfl⟩
  | cons port rest ih =>
    have hone := initTxPort_frame E port i cmp
    rw [Vf.initTxPorts]
    split
    · rename_i cmp₁ h₁
      rwa [h₁] at hone
    · rename_i cmp₁ h₁
      rw [h₁] at hone
      exact ⟨(ih _ _).1.trans hone.1, (ih _ _).2.trans hone.2⟩

/-- **What `init_component_info` builds** on a clean side. -/
theorem built_of_initComponentInfo (hclean : ∀ v, cmp.macClfs v = none)
    (hok : initComponentInfo E rx tx cmp = (.ok, cmp')) :
    Built tx cmp' ∧ cmp'.nofTxPorts = tx.length ∧ cmp'.rxPortI = clsRxPort rx := by
  unfold initComponentInfo at hok
  have hframe := initTxPorts_frame E tx 0
    { cmp with rxPortI := clsRxPort rx, nofTxPorts := tx.length, macAddrEntry := false }
  rw [hok] at hframe
  refine ⟨?_, hframe⟩
  have hstart : Built []
      { cmp with rxPortI := clsRxPort rx, nofTxPorts := tx.length, macAddrEntry := false } := by
    refine ⟨fun i port hport => absurd hport (by simp), fun v => ?_, fun v mac hmac => ?_, rfl⟩
    · exact iff_of_true (hclean v) rfl
    · rw [hclean v] at hmac
      exact absurd hmac (by simp)
  exact hstart.initTxPorts hok

/-! ## The buffers -/

theorem pkts_initTxPorts (E : HashEnv) (ports : List PortInfo) (n : ℕ) (cmp : ClsCompInfo)
    (h : ∀ i, (cmp.txPortsI i).pkts = []) (i : ℕ) :
    ((initTxPorts E ports n cmp).2.txPortsI i).pkts = [] := by
  have hone (port : PortInfo) (n : ℕ) {cmp : ClsCompInfo} (h : ∀ i, (cmp.txPortsI i).pkts = [])
      (i : ℕ) : ((initTxPort E port n cmp).2.txPortsI i).pkts = [] := by
    have hset : (update cmp.txPortsI n (.ofPort port n) i).pkts = [] := by
      rcases eq_or_ne i n with rfl | hin
      · rw [update_self]
        rfl
      · rw [update_of_ne hin]
        exact h i
    unfold initTxPort
    simp only
    split
    · exact hset
    · split <;> exact hset
  induction ports generalizing n cmp with
  | nil => exact h i
  | cons port ports ih =>
    have hport := hone port n h
    rw [initTxPorts]
    split
    · rename_i cmp' hres
      rw [hres] at hport
      exact hport i
    · rename_i cmp' hres
      rw [hres] at hport
      exact ih (n + 1) cmp' hport

/-- The build leaves the buffers of the tx ports empty. -/
theorem pkts_initComponentInfo {r : Ret}
    (hbuild : initComponentInfo E rx tx cmp = (r, cmp')) (h : ∀ i, (cmp.txPortsI i).pkts = [])
    (i : ℕ) : (cmp'.txPortsI i).pkts = [] := by
  unfold initComponentInfo at hbuild
  have hempty := pkts_initTxPorts E tx 0
    { cmp with rxPortI := clsRxPort rx, nofTxPorts := tx.length, macAddrEntry := false } h i
  rwa [hbuild] at hempty

end SoftPatchPanel.Vf
