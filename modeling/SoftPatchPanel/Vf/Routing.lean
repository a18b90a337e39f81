import SoftPatchPanel.Vf.Classify
import SoftPatchPanel.Vf.ClassifierBuild
import SoftPatchPanel.Worker.CmdRunner

/-!
# Where the classifier sends a packet

Three functions look at the tables to find out where a packet goes, with overlapping
fallbacks.  Together they queue it on a list of ports (`queuedOn`), each once, with one
reference for each, and free it if there are none.  What the list amounts to is a function of
the tx ports of the component, the VLAN id and the destination (`targets`), which names the
entries of the ports and none of the tables.  `destinations` says the same in terms of the
attributes, for ports whose attributes are in their ranges.
-/

namespace SoftPatchPanel.Vf

open Worker

/-! ## The reference -/

/-- The port has an entry for the VLAN id. -/
def hasEntry (v : ℕ) (port : PortInfo) : Bool :=
  port.clsAttrs.macAddr ≠ 0 ∧ port.clsAttrs.vlantag.vid = v

/-- The port is a default of the VLAN id. -/
def hasDefault (v : ℕ) (port : PortInfo) : Bool :=
  port.clsAttrs.macAddr = clsDummyAddr ∧ port.clsAttrs.vlantag.vid = v

/-- The port has an entry for the address, which is not the default address. -/
def hasDest (v : ℕ) (d : MacAddr) (port : PortInfo) : Bool :=
  hasEntry v port ∧ port.clsAttrs.macAddr ≠ clsDummyAddr ∧
    port.clsAttrs.macAddr = d.setWidth 64

/-- The default port of a VLAN id. -/
def defaultPort (tx : List PortInfo) (v : ℕ) : Option ℕ :=
  (tx.findIdxs (hasDefault v)).getLast?

/-- The ports that a multicast packet goes to if its VLAN id has entries. -/
def multicastPorts (tx : List PortInfo) (v : ℕ) : List ℕ :=
  tx.findIdxs (hasEntry v) ++
    if v ≠ vlanUntaggedVid then (defaultPort tx vlanUntaggedVid).toList else []

/-- The ports that a packet goes to: the last one with an entry for the id and the
address; failing that, for a multicast address of an id with entries, all ports of the
id and the default of untagged packets; failing that, the default of the id; failing
that, the default of untagged packets. -/
def destinations (tx : List PortInfo) (v : ℕ) (d : MacAddr) : List ℕ :=
  match (tx.findIdxs (hasDest v d)).getLast? with
  | some i => [i]
  | none =>
    if tx.findIdxs (hasEntry v) ≠ [] ∧ d.getLsbD 0 then multicastPorts tx v
    else ((defaultPort tx v).or (defaultPort tx vlanUntaggedVid)).toList

/-- The ports that a packet goes to, by the entries as the tables have them: VLAN ids of 16 bits
and addresses of 48. -/
def targets (tx : List PortInfo) (v : ℕ) (d : MacAddr) : List ℕ :=
  match (tx.findIdxs (hasAddr v d)).getLast? with
  | some i => [i]
  | none =>
    if tx.findIdxs (inVlan v) ≠ [] ∧ d.getLsbD 0 then
      tx.findIdxs (inVlan v) ++ if v ≠ vlanUntaggedVid then
        (tx.findIdxs (isDefault vlanUntaggedVid)).getLast?.toList else []
    else ((tx.findIdxs (isDefault v)).getLast?.or
      (tx.findIdxs (isDefault vlanUntaggedVid)).getLast?).toList

/-- The ports of a multicast packet. -/
def queuedOnMulticast (cmp : ClsCompInfo) (v : ℕ) : List ℕ :=
  let general := (getGeneralDefaultClassifiedIndex cmp).toList
  match cmp.macClfs v with
  | none => general
  | some mac =>
    if mac.clsPorts.length = 0 then general
    else mac.clsPorts ++ if v ≠ vlanUntaggedVid then general else []

/-- The ports that a result of `select_classified_index` stands for. -/
def Classified.ports (cmp : ClsCompInfo) (v : ℕ) : Classified → List ℕ
  | .index i => [i]
  | .none => []
  | .multicast => queuedOnMulticast cmp v

theorem ports_ofIdx (cmp : ClsCompInfo) (v : ℕ) (o : Option ℕ) :
    (Classified.ofIdx o).ports cmp v = o.toList := by
  cases o <;> rfl

/-- The ports on which `_classify_packets` queues a packet. -/
def queuedOn (cmp : ClsCompInfo) (f : Frame) : List ℕ :=
  (selectClassifiedIndex f cmp).ports cmp (getVid f)

/-- Queue a packet on some ports, with one reference for each; without a port, free
it. -/
def deliver (pc : PortCapability) (x : ℕ) (ports : List ℕ) (s : ClsSide) : ClsSide :=
  match ports with
  | [] => (s.1, s.2.free [x])
  | _ :: _ => ports.foldl (pushPacket pc x) (s.1, s.2.refcntUpdate x (ports.length - 1))

/-- The buffer of a port after one more packet: a full one goes out. -/
def pushed (x : ℕ) (pkts : List ℕ) : List ℕ :=
  if pkts.length + 1 = maxPktBurst then [] else pkts ++ [x]

/-- **A packet is queued**, once on each of these ports and on no other, with a reference for
each: the count goes up by one less than there are ports.  Nothing is sent or freed unless a
buffer gets full; without a port the packet is freed and nothing else happens. -/
structure Queued (x : ℕ) (ports : List ℕ) (s s' : ClsSide) : Prop where
  buffers : ∀ i, (s'.1.txPortsI i).pkts =
    if i ∈ ports then pushed x (s.1.txPortsI i).pkts else (s.1.txPortsI i).pkts
  added : ∀ y, s'.2.added y = s.2.added y + if y = x then ((ports.length - 1 : ℕ) : ℤ) else 0
  quiet : ports ≠ [] → (∀ i ∈ ports, (s.1.txPortsI i).pkts.length + 1 ≠ maxPktBurst) →
    s'.2.sent = s.2.sent ∧ s'.2.freed = s.2.freed
  freed : ports = [] → s' = (s.1, s.2.free [x])

/-- The attributes of a port are in their ranges: a VLAN id and a 48-bit address. -/
def EntryOk (port : PortInfo) : Prop :=
  0 ≤ port.clsAttrs.vlantag.vid ∧ port.clsAttrs.vlantag.vid ≤ ethVlanIdMax ∧
    port.clsAttrs.macAddr.toNat < 2 ^ 48

instance (port : PortInfo) : Decidable (EntryOk port) :=
  inferInstanceAs (Decidable (_ ∧ _ ∧ _))

/-! ## The entries as the tables have them -/

variable {tx : List PortInfo} {port : PortInfo} {v i : ℕ} {d : MacAddr} {cmp : ClsCompInfo}

theorem clsVid_eq_iff (h : EntryOk port) : clsVid port = v ↔ port.clsAttrs.vlantag.vid = v := by
  obtain ⟨h0, hmax, -⟩ := h
  unfold clsVid
  unfold ethVlanIdMax at hmax
  omega

theorem ethAddr_eq_iff (h : EntryOk port) :
    ethAddr port = d ↔ port.clsAttrs.macAddr = d.setWidth 64 := by
  obtain ⟨-, -, hmac⟩ := h
  unfold ethAddr
  constructor
  · rintro rfl
    apply BitVec.eq_of_toNat_eq
    simp only [BitVec.toNat_setWidth]
    omega
  intro h
  rw [h]
  apply BitVec.eq_of_toNat_eq
  have := d.isLt
  simp only [BitVec.toNat_setWidth]
  omega

theorem findIdxs_congr {p q : PortInfo → Bool} (h : ∀ port ∈ tx, p port = q port) :
    tx.findIdxs p = tx.findIdxs q := by
  induction tx using List.reverseRecOn with
  | nil => rfl
  | append_singleton tx port ih =>
    rw [findIdxs_concat, findIdxs_concat, h port (by simp),
      ih fun port hport => h port (by simp [hport])]

section Entries

variable (hattrs : ∀ port ∈ tx, EntryOk port)
include hattrs

theorem findIdxs_inVlan (v : ℕ) : tx.findIdxs (inVlan v) = tx.findIdxs (hasEntry v) := by
  apply findIdxs_congr
  intro port hport
  simp only [inVlan, hasEntry, clsVid_eq_iff (hattrs port hport)]

theorem findIdxs_isDefault (v : ℕ) : tx.findIdxs (isDefault v) = tx.findIdxs (hasDefault v) := by
  apply findIdxs_congr
  intro port hport
  simp only [isDefault, hasDefault, clsVid_eq_iff (hattrs port hport)]

theorem findIdxs_hasAddr (v : ℕ) (d : MacAddr) :
    tx.findIdxs (hasAddr v d) = tx.findIdxs (hasDest v d) := by
  apply findIdxs_congr
  intro port hport
  have hok := hattrs port hport
  simp only [hasAddr, hasDest, inVlan, hasEntry, clsVid_eq_iff hok, ethAddr_eq_iff hok]
  rfl

end Entries

theorem targets_eq_destinations (hattrs : ∀ port ∈ tx, EntryOk port) (v : ℕ) (d : MacAddr) :
    targets tx v d = destinations tx v d := by
  unfold targets destinations multicastPorts defaultPort
  rw [findIdxs_hasAddr hattrs, findIdxs_inVlan hattrs, findIdxs_isDefault hattrs,
    findIdxs_isDefault hattrs]

/-! ## The ports are different ones -/

theorem mem_toList_defaultPort (h : i ∈ (defaultPort tx v).toList) :
    ∃ port, tx[i]? = some port ∧ port.clsAttrs.vlantag.vid = v := by
  have hmem := List.mem_of_getLast? (Option.mem_toList.mp h)
  rw [List.mem_findIdxs_iff_exists_getElem_pos] at hmem
  obtain ⟨hi, hport⟩ := hmem
  simp only [hasDefault, decide_eq_true_eq] at hport
  exact ⟨tx[i], List.getElem?_eq_getElem hi, hport.2⟩

theorem mem_findIdxs_hasEntry (h : i ∈ tx.findIdxs (hasEntry v)) :
    ∃ port, tx[i]? = some port ∧ port.clsAttrs.vlantag.vid = v := by
  rw [List.mem_findIdxs_iff_exists_getElem_pos] at h
  obtain ⟨hi, hport⟩ := h
  simp only [hasEntry, decide_eq_true_eq] at hport
  exact ⟨tx[i], List.getElem?_eq_getElem hi, hport.2⟩

theorem nodup_multicastPorts (tx : List PortInfo) (v : ℕ) : (multicastPorts tx v).Nodup := by
  refine List.nodup_append.mpr ⟨List.nodup_findIdxs, ?_, ?_⟩
  · split
    · cases defaultPort tx vlanUntaggedVid <;> simp
    · exact List.nodup_nil
  intro i hi j hj hij
  subst hij
  split at hj
  · rename_i hv
    obtain ⟨port, hport, hvid⟩ := mem_findIdxs_hasEntry hi
    obtain ⟨port', hport', hvid'⟩ := mem_toList_defaultPort hj
    rw [hport] at hport'
    cases hport'
    rw [hvid] at hvid'
    exact hv (by exact_mod_cast hvid')
  · simp at hj

theorem nodup_destinations (tx : List PortInfo) (v : ℕ) (d : MacAddr) :
    (destinations tx v d).Nodup := by
  unfold destinations
  split
  · simp
  · split
    · exact nodup_multicastPorts tx v
    · cases (defaultPort tx v).or (defaultPort tx vlanUntaggedVid) <;> simp

theorem lt_length_of_getElem? {port : PortInfo} (h : tx[i]? = some port) : i < tx.length :=
  (List.getElem?_eq_some_iff.mp h).1

theorem lt_of_mem_destinations (h : i ∈ destinations tx v d) : i < tx.length := by
  have hdefault {u : ℕ} (h : i ∈ (defaultPort tx u).toList) : i < tx.length := by
    obtain ⟨port, hport, -⟩ := mem_toList_defaultPort h
    exact lt_length_of_getElem? hport
  unfold destinations at h
  split at h
  · rename_i j hj
    have hmem := List.mem_of_getLast? hj
    rw [List.mem_singleton] at h
    subst h
    exact (List.mem_findIdxs_iff_exists_getElem_pos.mp hmem).1
  split at h
  · rcases List.mem_append.mp h with h | h
    · obtain ⟨port, hport, -⟩ := mem_findIdxs_hasEntry h
      exact lt_length_of_getElem? hport
    · split at h
      · exact hdefault h
      · simp at h
  · cases hv : defaultPort tx v with
    | none =>
      rw [hv, Option.none_or] at h
      exact hdefault h
    | some j =>
      rw [hv, Option.some_or] at h
      exact hdefault (hv ▸ h)

/-! ## The tables give the reference -/

theorem Tabled.of_emptied_eq {cmp' : ClsCompInfo} (h : Tabled tx cmp)
    (he : cmp'.emptied = cmp.emptied) : Tabled tx cmp' := by
  have hclfs := ClsCompInfo.macClfs_of_emptied_eq he
  exact ⟨fun v => hclfs ▸ h.unregistered v, fun v mac hmac => h.registered v mac (hclfs ▸ hmac)⟩

section Lookup

variable (h : Tabled tx cmp)
include h

theorem getGeneralDefault_eq : getGeneralDefaultClassifiedIndex cmp =
    (tx.findIdxs (isDefault vlanUntaggedVid)).getLast? := by
  have hmac := (h.getD vlanUntaggedVid).default
  unfold getGeneralDefaultClassifiedIndex
  cases hv : cmp.macClfs vlanUntaggedVid with
  | none =>
    rwa [hv] at hmac
  | some mac =>
    rwa [hv] at hmac

/-- A VLAN id without entries has no port of any kind. -/
theorem of_unregistered (hv : cmp.macClfs v = none) :
    tx.findIdxs (inVlan v) = [] ∧ (tx.findIdxs (isDefault v)).getLast? = none ∧
      ∀ d, (tx.findIdxs (hasAddr v d)).getLast? = none := by
  have hmac := h.getD v
  rw [hv] at hmac
  exact ⟨(h.unregistered v).mp hv, hmac.default.symm, fun d => (hmac.table d).symm⟩

theorem inVlan_ne_nil_of_registered {mac : MacClassifier} (hv : cmp.macClfs v = some mac) :
    tx.findIdxs (inVlan v) ≠ [] := by
  intro hnil
  rw [(h.unregistered v).mpr hnil] at hv
  cases hv

/-- **The tables give the reference.** -/
theorem queuedOn_eq_targets (f : Frame) : queuedOn cmp f = targets tx (getVid f) f.dAddr := by
  have hgen := getGeneralDefault_eq h
  unfold queuedOn selectClassifiedIndex targets
  simp only
  cases hv : cmp.macClfs (getVid f) with
  | none =>
    obtain ⟨hentries, hdefault, hdest⟩ := of_unregistered h hv
    simp only [hdest, hentries, hdefault, ports_ofIdx, hgen, ne_eq, not_true_eq_false, false_and,
      if_false, Option.none_or]
  | some mac =>
    have hmac := h.registered _ mac hv
    have hentries := inVlan_ne_nil_of_registered h hv
    simp only [hmac.table f.dAddr]
    cases hlast : (tx.findIdxs (hasAddr (getVid f) f.dAddr)).getLast? with
    | some i => rfl
    | none =>
      simp only
      by_cases hmulti : f.dAddr.getLsbD 0 = true
      · have hlen : mac.clsPorts.length ≠ 0 := by
          rw [hmac.clsPorts]
          exact fun h0 => hentries (List.eq_nil_of_length_eq_zero h0)
        rw [if_pos (show f.multicast = true from hmulti), if_pos ⟨hentries, hmulti⟩]
        simp only [Classified.ports, queuedOnMulticast, hv, if_neg hlen]
        rw [hmac.clsPorts, hgen]
      · rw [if_neg (show ¬ f.multicast = true from hmulti), hgen, hmac.default]
        cases hd : (tx.findIdxs (isDefault (getVid f))).getLast? with
        | some j => rw [if_neg (by simp), if_neg fun hm => hmulti hm.2, ports_ofIdx, Option.some_or]
        | none =>
          by_cases hvid : getVid f = vlanUntaggedVid
          · rw [if_neg fun hno => hno.2 hvid, if_neg fun hm => hmulti hm.2, ← hvid, hd, ports_ofIdx]
            rfl
          · rw [if_pos ⟨rfl, hvid⟩, if_neg fun hm => hmulti hm.2, ports_ofIdx]
            rfl

end Lookup

@[simp]
theorem refcntUpdate_zero (x : ℕ) (w : DataPath) : w.refcntUpdate x 0 = w := by
  simp [DataPath.refcntUpdate]

/-- Delivering to one port or none. -/
theorem deliver_toList (pc : PortCapability) (x : ℕ) (o : Option ℕ) (s : ClsSide) :
    deliver pc x o.toList s = o.elim (s.1, s.2.free [x]) (pushPacket pc x s) := by
  cases o with
  | none => rfl
  | some i => simp [deliver]

theorem deliver_of_ne_nil {ports : List ℕ} (hne : ports ≠ []) (pc : PortCapability) (x : ℕ)
    (s : ClsSide) : deliver pc x ports s =
      ports.foldl (pushPacket pc x) (s.1, s.2.refcntUpdate x (ports.length - 1)) := by
  cases ports with
  | nil => exact absurd rfl hne
  | cons i rest => rfl

theorem pkts_pushPacket (pc : PortCapability) (x : ℕ) (s : ClsSide) (i j : ℕ) :
    ((pushPacket pc x s i).1.txPortsI j).pkts =
      if j = i then pushed x (s.1.txPortsI i).pkts else (s.1.txPortsI j).pkts := by
  unfold pushPacket pushed
  simp only [List.length_append, List.length_singleton]
  split
  · rcases eq_or_ne j i with rfl | hj
    · simp [transmitPort, transmitPackets, ClsCompInfo.setTxPort]
    · simp [transmitPort, ClsCompInfo.setTxPort, hj]
  · rcases eq_or_ne j i with rfl | hj
    · simp [ClsCompInfo.setTxPort]
    · simp [ClsCompInfo.setTxPort, hj]

theorem added_pushPacket (pc : PortCapability) (x : ℕ) (s : ClsSide) (i : ℕ) :
    (pushPacket pc x s i).2.added = s.2.added := by
  unfold pushPacket
  simp only
  split
  · simp only [transmitPort, transmitPackets]
    obtain ⟨n, m, w₁, used, txBurst, hsend, -, -, hedits, -⟩ :=
      sppwkEthVlanTxBurst_edits pc ((s.1.setTxPort i { s.1.txPortsI i with
        pkts := (s.1.txPortsI i).pkts ++ [x] }).txPortsI i).ethdevPortId _ _ s.2
    rw [hsend]
    exact hedits.added
  · rfl

/-- As long as the buffer does not get full, the packets stay where they are. -/
theorem data_pushPacket (pc : PortCapability) (x : ℕ) (s : ClsSide) {i : ℕ}
    (h : (s.1.txPortsI i).pkts.length + 1 ≠ maxPktBurst) : (pushPacket pc x s i).2 = s.2 := by
  unfold pushPacket
  simp only [List.length_append, List.length_singleton, if_neg h]

/-- What the pushes of one packet to different ports leave. -/
theorem foldl_pushPacket_spec (pc : PortCapability) (x : ℕ) {ports : List ℕ}
    (hnd : ports.Nodup) (s : ClsSide) :
    (∀ i, ((ports.foldl (pushPacket pc x) s).1.txPortsI i).pkts =
      if i ∈ ports then pushed x (s.1.txPortsI i).pkts else (s.1.txPortsI i).pkts) ∧
    (ports.foldl (pushPacket pc x) s).2.added = s.2.added ∧
    ((∀ i ∈ ports, (s.1.txPortsI i).pkts.length + 1 ≠ maxPktBurst) →
      (ports.foldl (pushPacket pc x) s).2 = s.2) := by
  induction ports generalizing s with
  | nil => exact ⟨fun i => (if_neg List.not_mem_nil).symm, rfl, fun _ => rfl⟩
  | cons j ports ih =>
    obtain ⟨hj, hrest⟩ := List.nodup_cons.mp hnd
    obtain ⟨hpkts, hadded, hdata⟩ := ih hrest (pushPacket pc x s j)
    refine ⟨fun i => ?_, hadded.trans (added_pushPacket pc x s j), fun hroom => ?_⟩
    · rw [List.foldl_cons, hpkts, pkts_pushPacket]
      rcases eq_or_ne i j with rfl | hi
      · rw [if_neg hj, if_pos rfl, if_pos List.mem_cons_self]
      · simp only [List.mem_cons, hi, false_or, if_false]
    · rw [List.forall_mem_cons] at hroom
      rw [List.foldl_cons, hdata, data_pushPacket pc x s hroom.1]
      intro i hi
      have hne : i ≠ j := fun h => hj (h ▸ hi)
      rw [pkts_pushPacket, if_neg hne]
      exact hroom.2 i hi

/-- **What `deliver` leaves** in the buffers and in the reference counts. -/
theorem queued_deliver {ports : List ℕ} (hnd : ports.Nodup) (pc : PortCapability) (x : ℕ)
    (s : ClsSide) : Queued x ports s (deliver pc x ports s) := by
  cases ports with
  | nil =>
    exact ⟨fun i => rfl, fun y => by simp [deliver, DataPath.free], fun h => absurd rfl h,
      fun _ => rfl⟩
  | cons j rest =>
    have hadd : ((j :: rest).length : ℤ) - 1 = (((j :: rest).length - 1 : ℕ) : ℤ) := by simp
    obtain ⟨hpkts, hadded, hdata⟩ := foldl_pushPacket_spec pc x hnd
      (s.1, s.2.refcntUpdate x ((j :: rest).length - 1))
    refine ⟨hpkts, fun y => ?_, fun _ hroom => ?_, fun h => absurd h (List.cons_ne_nil j rest)⟩
    · rw [deliver, hadded, hadd]
      rcases eq_or_ne y x with rfl | hy
      · simp [DataPath.refcntUpdate]
      · simp [DataPath.refcntUpdate, hy]
    · rw [deliver, hdata hroom]
      exact ⟨rfl, rfl⟩

/-- **One packet**: it is queued, with one reference for each port. -/
theorem classifyPacket_eq_deliver
    (hlen : ∀ v mac, cmp.macClfs v = some mac → mac.clsPorts.length < 2 ^ 15)
    (pc : PortCapability) (w : DataPath) (x : ℕ) :
    classifyPacket pc (cmp, w) x = deliver pc x (queuedOn cmp (w.frame x)) (cmp, w) := by
  have hgeneral : pushGeneralDefault pc x (cmp, w) =
      deliver pc x (getGeneralDefaultClassifiedIndex cmp).toList (cmp, w) := by
    rw [deliver_toList, pushGeneralDefault]
    cases getGeneralDefaultClassifiedIndex cmp <;> rfl
  unfold classifyPacket queuedOn
  cases hsel : selectClassifiedIndex (w.frame x) cmp with
  | index i => exact (deliver_toList pc x (some i) (cmp, w)).symm
  | none => rfl
  | multicast =>
    simp only [handleL2multicastPacket, Classified.ports, queuedOnMulticast]
    cases hmac : cmp.macClfs (getVid (w.frame x)) with
    | none => exact hgeneral
    | some mac =>
      by_cases h0 : mac.clsPorts.length = 0
      · simp only [if_pos h0]
        exact hgeneral
      simp only [if_neg h0]
      have hne : mac.clsPorts ++ (if getVid (w.frame x) ≠ vlanUntaggedVid then
          (getGeneralDefaultClassifiedIndex cmp).toList else []) ≠ [] :=
        fun hnil => h0 (by rw [(List.append_eq_nil_iff.mp hnil).1, List.length_nil])
      rw [deliver_of_ne_nil hne, ← List.foldl_append, List.length_append, Nat.cast_add,
        bmod_nActClsd (Nat.pos_of_ne_zero h0) (hlen _ mac hmac) (length_ite_toList_le _ _)]

/-- A VLAN id has no more ports than there are. -/
theorem Tabled.length_clsPorts_le (h : Tabled tx cmp) {mac : MacClassifier}
    (hmac : cmp.macClfs v = some mac) : mac.clsPorts.length ≤ tx.length := by
  rw [(h.registered v mac hmac).clsPorts, List.length_findIdxs]
  exact List.countP_le_length

/-- **One packet**, and where it goes. -/
theorem classifyPacket_eq (h : Tabled tx cmp) (hattrs : ∀ port ∈ tx, EntryOk port)
    (hlen : tx.length < 2 ^ 15) (pc : PortCapability) (w : DataPath) (x : ℕ) :
    classifyPacket pc (cmp, w) x =
      deliver pc x (destinations tx (getVid (w.frame x)) (w.frame x).dAddr) (cmp, w) := by
  rw [classifyPacket_eq_deliver fun v mac hmac => (h.length_clsPorts_le hmac).trans_lt hlen,
    queuedOn_eq_targets h, targets_eq_destinations hattrs]

theorem emptied_deliver (pc : PortCapability) (x : ℕ) (ports : List ℕ) (s : ClsSide) :
    (deliver pc x ports s).1.emptied = s.1.emptied := by
  cases ports with
  | nil => rfl
  | cons i ports => exact emptied_foldl_pushPacket pc x (i :: ports) _

/-- **A burst**, packet by packet. -/
theorem classifyRxPackets_eq (h : Tabled tx cmp) (hattrs : ∀ port ∈ tx, EntryOk port)
    (hlen : tx.length < 2 ^ 15) (pc : PortCapability) (rxPkts : List ℕ) (w : DataPath) :
    classifyRxPackets pc rxPkts (cmp, w) =
      rxPkts.foldl (fun s x => deliver pc x
        (destinations tx (getVid (s.2.frame x)) (s.2.frame x).dAddr) s) (cmp, w) := by
  unfold classifyRxPackets
  induction rxPkts generalizing cmp w with
  | nil => rfl
  | cons x rest ih =>
    rw [List.foldl_cons, List.foldl_cons, classifyPacket_eq h hattrs hlen]
    exact ih (h.of_emptied_eq (emptied_deliver pc x _ (cmp, w))) _

/-- A tx port with an entry. -/
def clsPort (ethdev : ℤ) (vid : ℤ) (mac : BitVec 64) : PortInfo :=
  ⟨.phy, ethdev, ethdev, 0, ⟨mac, [], ⟨vid, 0, 0⟩⟩, fun _ => .zero⟩

/-- Three tx ports: an address and the default of VLAN 10, and the default of untagged
packets. -/
def threePorts : List PortInfo :=
  [clsPort 0 10 0x42, clsPort 1 10 clsDummyAddr, clsPort 2 0xfff clsDummyAddr]

/-- A broadcast in VLAN 10. -/
def broadcastTen : Frame := ⟨BitVec.allOnes 48, 0, etherTypeVlan, [0, 10, 8, 0]⟩

/-- A request during which the second tx port of a classifier cannot be entered into its hash
table. -/
def withoutSecondKey (str : String) : Request :=
  { Request.plain str with
    env := { (Request.plain str).env with hash := ⟨fun _ => true, fun i => i ≠ 1⟩ } }

/-- An untagged broadcast. -/
def broadcastPlain : Frame := ⟨BitVec.allOnes 48, 0, 0x0800, []⟩

end SoftPatchPanel.Vf
