import SoftPatchPanel.Vf.Routing
import SoftPatchPanel.Vf.SyncedTables

/-!
# Classification and the order of configuration

The tx ports of a classifier stand in an array, in the order in which they were added, and the
tables are built by going through the array; where two ports have the same VLAN id and address,
or are both the default of a VLAN id, the later one wins.  So the order matters exactly there.

`Receives` says which ports get a frame in terms of who holds which key, with no order in it.
If every key has one holder at most, the array gives what `Receives` says (`mem_targets_iff`), and
two runs that lead to the same keys classify every frame alike (`queuedAlike_of_runs`).
-/

namespace SoftPatchPanel.Vf

open Transition Worker

/-! ## Who receives a frame -/

section Receives

variable {α : Type*} {holds holds' : ℕ × Option MacAddr → α → Prop}

/-- **The receivers of a frame**: the holder of the VLAN id and the address; if there is none, for
a multicast address of an id with holders, all of these and the default of untagged frames;
otherwise the default of the id or, failing that, of untagged frames. -/
def Receives (holds : ℕ × Option MacAddr → α → Prop) (v : ℕ) (d : MacAddr) (r : α) : Prop :=
  holds (v, some d) r ∨ (∀ r', ¬ holds (v, some d) r') ∧
    ((d.getLsbD 0 = true ∧ (∃ o r', holds (v, o) r') ∧
        ((∃ o, holds (v, o) r) ∨ holds (vlanUntaggedVid, none) r)) ∨
      ¬(d.getLsbD 0 = true ∧ ∃ o r', holds (v, o) r') ∧
        (holds (v, none) r ∨ (∀ r', ¬ holds (v, none) r') ∧ holds (vlanUntaggedVid, none) r))

theorem receives_congr (h : ∀ k r, holds k r ↔ holds' k r) (v : ℕ) (d : MacAddr) (r : α) :
    Receives holds v d r ↔ Receives holds' v d r := by
  have hsame : holds = holds' := by
    funext k r
    exact propext (h k r)
  rw [hsame]

end Receives

/-! ## The array -/

variable {iface : PortRef → PortInfo} {refs : List PortRef} {r : PortRef} {v id₁ id₂ id : ℕ}
  {p : PortInfo → Bool} {P : Platform} {cmp : ClsCompInfo} {s₁ s₂ s : State} {addr : ℕ → BitVec 64}

/-- The port is one of these, and is entered under the key. -/
def Holds (iface : PortRef → PortInfo) (refs : List PortRef) (k : ℕ × Option MacAddr)
    (r : PortRef) : Prop :=
  r ∈ refs ∧ hasKey k (iface r) = true

theorem inVlan_iff {port : PortInfo} : inVlan v port = true ↔ ∃ o, hasKey (v, o) port = true := by
  rw [inVlan, decide_eq_true_eq]
  constructor
  · rintro ⟨hne, rfl⟩
    exact ⟨(portKey port).2, decide_eq_true ⟨hne, rfl⟩⟩
  · rintro ⟨o, hkey⟩
    obtain ⟨hne, hkey⟩ := of_decide_eq_true hkey
    exact ⟨hne, congrArg Prod.fst hkey⟩

/-- The ports that stand at some places of the array. -/
def portsAt (refs : List PortRef) (l : List ℕ) : List PortRef := l.filterMap (refs[·]?)

theorem mem_portsAt_findIdxs :
    r ∈ portsAt refs ((refs.map iface).findIdxs p) ↔ r ∈ refs ∧ p (iface r) = true := by
  rw [portsAt, List.mem_filterMap]
  constructor
  · rintro ⟨i, hi, hr⟩
    obtain ⟨hlt, hp⟩ := mem_findIdxs_map_iff.mp hi
    obtain rfl : refs[i] = r := Option.some.inj ((List.getElem?_eq_getElem hlt).symm.trans hr)
    exact ⟨List.getElem_mem hlt, hp⟩
  · rintro ⟨hr, hp⟩
    obtain ⟨i, hlt, rfl⟩ := List.getElem_of_mem hr
    exact ⟨i, mem_findIdxs_map_iff.mpr ⟨hlt, hp⟩, List.getElem?_eq_getElem hlt⟩

theorem findIdxs_map_eq_nil_iff :
    (refs.map iface).findIdxs p = [] ↔ ∀ r ∈ refs, ¬ p (iface r) = true := by
  constructor
  · intro hnil r hr hp
    have hmem := mem_portsAt_findIdxs.mpr ⟨hr, hp⟩
    rw [hnil] at hmem
    exact absurd hmem List.not_mem_nil
  intro hnone
  rw [List.eq_nil_iff_forall_not_mem]
  intro i hi
  obtain ⟨hlt, hp⟩ := mem_findIdxs_map_iff.mp hi
  exact hnone _ (List.getElem_mem hlt) hp

theorem getLast?_findIdxs_eq_none_iff {k : ℕ × Option MacAddr} :
    ((refs.map iface).findIdxs (hasKey k)).getLast? = none ↔ ∀ r, ¬ Holds iface refs k r := by
  rw [List.getLast?_eq_none_iff, findIdxs_map_eq_nil_iff]
  exact ⟨fun h r hr => h r hr.1 hr.2, fun h r hr hp => h r ⟨hr, hp⟩⟩

section Distinct

variable (hkeys : KeysDistinct iface refs)
include hkeys

variable {k : ℕ × Option MacAddr}

/-- A key has one holder at most. -/
theorem holds_unique {r r' : PortRef} (h : Holds iface refs k r)
    (h' : Holds iface refs k r') : r = r' := by
  obtain ⟨hr, hk⟩ := h
  obtain ⟨hr', hk'⟩ := h'
  rw [hasKey, decide_eq_true_eq] at hk hk'
  exact hkeys r hr r' hr' hk.1 hk'.1 (hk.2.trans hk'.2.symm)

/-- The last place of a key is that of its holder. -/
theorem mem_portsAt_getLast? :
    r ∈ portsAt refs ((refs.map iface).findIdxs (hasKey k)).getLast?.toList ↔
      Holds iface refs k r := by
  have hsub {i : ℕ} (hi : ((refs.map iface).findIdxs (hasKey k)).getLast? = some i) :
      ∃ r', refs[i]? = some r' ∧ Holds iface refs k r' := by
    obtain ⟨hlt, hk⟩ := mem_findIdxs_map_iff.mp (List.mem_of_getLast? hi)
    exact ⟨refs[i], List.getElem?_eq_getElem hlt, List.getElem_mem hlt, hk⟩
  rw [portsAt, List.mem_filterMap]
  constructor
  · rintro ⟨i, hi, hr⟩
    obtain ⟨r', hr', hk⟩ := hsub (Option.mem_toList.mp hi)
    obtain rfl : r' = r := Option.some.inj (hr'.symm.trans hr)
    exact hk
  intro h
  cases hlast : ((refs.map iface).findIdxs (hasKey k)).getLast? with
  | none => exact absurd h (getLast?_findIdxs_eq_none_iff.mp hlast r)
  | some i =>
    obtain ⟨r', hr', hk⟩ := hsub hlast
    exact ⟨i, Option.mem_toList.mpr rfl, by rw [hr', holds_unique hkeys h hk]⟩

/-- **The array gives what the keys say.** -/
theorem mem_targets_iff (v : ℕ) (d : MacAddr) :
    r ∈ portsAt refs (targets (refs.map iface) v d) ↔ Receives (Holds iface refs) v d r := by
  have hvlan : (refs.map iface).findIdxs (inVlan v) ≠ [] ↔ ∃ o r', Holds iface refs (v, o) r' := by
    rw [ne_eq, findIdxs_map_eq_nil_iff]
    simp only [inVlan_iff, Holds]
    push Not
    constructor
    · rintro ⟨r', hr', o, hk⟩
      exact ⟨o, r', hr', hk⟩
    · rintro ⟨o, r', hr', hk⟩
      exact ⟨r', hr', o, hk⟩
  have hmulti : r ∈ portsAt refs ((refs.map iface).findIdxs (inVlan v)) ↔
      ∃ o, Holds iface refs (v, o) r := by
    rw [mem_portsAt_findIdxs, inVlan_iff]
    exact ⟨fun ⟨hr, o, hk⟩ => ⟨o, hr, hk⟩, fun ⟨o, hr, hk⟩ => ⟨hr, o, hk⟩⟩
  unfold targets Receives
  rw [hasAddr_eq, isDefault_eq, isDefault_eq]
  cases hlast : ((refs.map iface).findIdxs (hasKey (v, some d))).getLast? with
  | some i =>
    have hone := mem_portsAt_getLast? hkeys (r := r) (k := (v, some d))
    rw [hlast] at hone
    have hheld : ¬ ∀ r', ¬ Holds iface refs (v, some d) r' := by
      rw [← getLast?_findIdxs_eq_none_iff, hlast]
      exact Option.some_ne_none _
    exact hone.trans (or_iff_left fun h => hheld h.1).symm
  | none =>
    have hnone := getLast?_findIdxs_eq_none_iff.mp hlast
    rw [or_iff_right (hnone r), and_iff_right hnone, ← hvlan]
    simp only
    have hgeneral := mem_portsAt_getLast? hkeys (r := r) (k := (vlanUntaggedVid, none))
    by_cases hgo : (refs.map iface).findIdxs (inVlan v) ≠ [] ∧ d.getLsbD 0 = true
    · have hswap := hgo.symm
      rw [if_pos hgo, or_iff_left fun h => h.1 hswap, and_iff_right hgo.2, and_iff_right hgo.1,
        portsAt, List.filterMap_append, List.mem_append]
      by_cases hv : v ≠ vlanUntaggedVid
      · rw [if_pos hv]
        exact or_congr hmulti hgeneral
      · rw [if_neg hv, List.filterMap_nil, or_iff_left List.not_mem_nil]
        obtain rfl := not_not.mp hv
        exact hmulti.trans (or_iff_left_of_imp fun h => ⟨none, h⟩).symm
    rw [if_neg hgo, or_iff_right fun h => hgo ⟨h.2.1, h.1⟩, and_iff_right fun h => hgo h.symm]
    have hdefault := mem_portsAt_getLast? hkeys (r := r) (k := (v, none))
    cases hd : ((refs.map iface).findIdxs (hasKey (v, none))).getLast? with
    | some i =>
      rw [hd] at hdefault
      have hheld : ¬ ∀ r', ¬ Holds iface refs (v, none) r' := by
        rw [← getLast?_findIdxs_eq_none_iff, hd]
        exact Option.some_ne_none _
      rw [Option.some_or]
      exact hdefault.trans (or_iff_left fun h => hheld h.1).symm
    | none =>
      have hfree := getLast?_findIdxs_eq_none_iff.mp hd
      rwa [Option.none_or, or_iff_right (hfree r), and_iff_right hfree]

end Distinct

/-! ## Two runs -/

theorem lt_of_mem_targets {tx : List PortInfo} {i : ℕ} {d : MacAddr} (h : i ∈ targets tx v d) :
    i < tx.length := by
  have hlt {p : PortInfo → Bool} (h : i ∈ tx.findIdxs p) : i < tx.length :=
    (List.mem_findIdxs_iff_exists_getElem_pos.mp h).1
  have hlast {p : PortInfo → Bool} (h : (tx.findIdxs p).getLast? = some i) : i < tx.length :=
    hlt (List.mem_of_getLast? h)
  unfold targets at h
  split at h
  · rename_i j hj
    rw [List.mem_singleton] at h
    exact hlast (h ▸ hj)
  split at h
  · rcases List.mem_append.mp h with h | h
    · exact hlt h
    · split at h
      · exact hlast (Option.mem_toList.mp h)
      · exact absurd h List.not_mem_nil
  · rw [Option.mem_toList, Option.or_eq_some_iff] at h
    rcases h with h | ⟨-, h⟩ <;> exact hlast h

/-- The ports on which the side queues a frame, by name. -/
def queuedPorts (cmp : ClsCompInfo) (f : Frame) : List PortIdx := (queuedOn cmp f).map cmp.portIdx

/-- The names of the ports on which a side queues a frame. -/
theorem TableOf.queuedPorts_eq (h : TableOf iface refs cmp) (f : Frame) :
    queuedPorts cmp f =
      (portsAt refs (targets (refs.map iface) (getVid f) f.dAddr)).map PortRef.portIdx := by
  rw [queuedPorts, queuedOn_eq_targets h.tabled, portsAt, List.map_filterMap]
  have hlt : ∀ i ∈ targets (refs.map iface) (getVid f) f.dAddr, i < refs.length := by
    intro i hi
    have := lt_of_mem_targets hi
    rwa [List.length_map] at this
  generalize targets (refs.map iface) (getVid f) f.dAddr = l at hlt
  induction l with
  | nil => rfl
  | cons i l ih =>
    rw [List.forall_mem_cons] at hlt
    rw [List.map_cons, ih hlt.2, List.filterMap_cons, List.getElem?_eq_getElem hlt.1,
      h.names i hlt.1]
    rfl

/-- **A side with the tables of ports with distinct keys** queues a frame on its receivers. -/
theorem TableOf.mem_queuedPorts (h : TableOf iface refs cmp)
    (hkeys : KeysDistinct iface refs) (f : Frame) (p : PortIdx) :
    p ∈ queuedPorts cmp f ↔
      ∃ r, Receives (Holds iface refs) (getVid f) f.dAddr r ∧ r.portIdx = p := by
  simp only [← mem_targets_iff hkeys]
  rw [h.queuedPorts_eq, List.mem_map]

/-- The classifiers have the same tx ports, each with the same VLAN id and address, or without an
entry. -/
def SameEntries (s₁ : State) (id₁ : ℕ) (s₂ : State) (id₂ : ℕ) : Prop :=
  (∀ r, r ∈ (s₁.mng.comp id₁).ports .tx ↔ r ∈ (s₂.mng.comp id₂).ports .tx) ∧
    ∀ r ∈ (s₁.mng.comp id₁).ports .tx,
      (s₁.mng.iface r).clsAttrs.macAddr = (s₂.mng.iface r).clsAttrs.macAddr ∧
        ((s₁.mng.iface r).clsAttrs.macAddr ≠ 0 →
          (s₁.mng.iface r).clsAttrs.vlantag.vid = (s₂.mng.iface r).clsAttrs.vlantag.vid)

theorem SameEntries.holds (h : SameEntries s₁ id₁ s₂ id₂) (k : ℕ × Option MacAddr) (r : PortRef) :
    Holds s₁.mng.iface ((s₁.mng.comp id₁).ports .tx) k r ↔
      Holds s₂.mng.iface ((s₂.mng.comp id₂).ports .tx) k r := by
  unfold Holds
  rw [← h.1 r]
  refine and_congr_right fun hr => ?_
  obtain ⟨hmac, hvid⟩ := h.2 r hr
  rw [hasKey, hasKey, decide_eq_true_eq, decide_eq_true_eq, portKey, portKey, ← hmac]
  exact and_congr_right fun hne => by rw [hvid hne]

/-- The side queues every packet on the ports of its frame, whatever its buffers hold. -/
def Queues (cmp : ClsCompInfo) : Prop :=
  ∀ pc w x cmp', cmp'.emptied = cmp.emptied →
    classifyPacket pc (cmp', w) x = deliver pc x (queuedOn cmp (w.frame x)) (cmp', w)

theorem Synced.queues (hvf : P.module = .vf) (h : Synced P s)
    (hid : id < P.maxLcore) (hcls : (s.mng.comp id).wkType = .cls) : Queues (s.cls id).ref := by
  intro pc w x cmp' hsame
  have htable := (h.tables id hid hcls).tabled
  have htable' := htable.of_emptied_eq hsame
  have hlen : ((s.mng.comp id).ports .tx).length < 2 ^ 15 := by
    have hroom := h.placed.room id
    rw [maxPorts, hvf] at hroom
    exact hroom.trans_lt P.maxQueuesPerPort_lt
  rw [classifyPacket_eq_deliver, queuedOn_eq_targets htable, queuedOn_eq_targets htable']
  intro v mac hmac
  have hle := htable'.length_clsPorts_le hmac
  rw [List.length_map] at hle
  exact hle.trans_lt hlen

/-- **The order of configuration does not matter** where no two tx ports have the same VLAN id and
address or are defaults of the same VLAN id: two runs of successful requests that lead to the same
entries queue every frame on the same ports. -/
theorem queuedAlike_of_runs (P : Platform) (hvf : P.module = .vf)
    {h₁ h₂ : List (State × Request)} {s₁ s₂ : State} (hrun₁ : Run (workerSystem P) h₁ s₁)
    (hrun₂ : Run (workerSystem P) h₂ s₂) (hG₁ : Guarded (SyncGuard P) h₁)
    (hG₂ : Guarded (SyncGuard P) h₂) {id₁ id₂ : ℕ} (hid₁ : id₁ < P.maxLcore)
    (hid₂ : id₂ < P.maxLcore) (hcls₁ : (s₁.mng.comp id₁).wkType = .cls)
    (hcls₂ : (s₂.mng.comp id₂).wkType = .cls) (hsame : SameEntries s₁ id₁ s₂ id₂)
    (hkeys : KeysDistinct s₁.mng.iface ((s₁.mng.comp id₁).ports .tx)) :
    Queues (s₁.cls id₁).ref ∧ Queues (s₂.cls id₂).ref ∧
      ∀ f p, p ∈ queuedPorts (s₁.cls id₁).ref f ↔ p ∈ queuedPorts (s₂.cls id₂).ref f := by
  have hs₁ := synced_of_run hvf hrun₁ hG₁
  have hs₂ := synced_of_run hvf hrun₂ hG₂
  refine ⟨hs₁.queues hvf hid₁ hcls₁, hs₂.queues hvf hid₂ hcls₂, fun f p => ?_⟩
  have hkeys₂ : KeysDistinct s₂.mng.iface ((s₂.mng.comp id₂).ports .tx) := by
    intro r hr r' hr' hne hne' hkey
    have hk : Holds s₂.mng.iface ((s₂.mng.comp id₂).ports .tx) (portKey (s₂.mng.iface r)) r :=
      ⟨hr, decide_eq_true ⟨hne, rfl⟩⟩
    have hk' : Holds s₂.mng.iface ((s₂.mng.comp id₂).ports .tx) (portKey (s₂.mng.iface r)) r' :=
      ⟨hr', decide_eq_true ⟨hne', hkey.symm⟩⟩
    exact holds_unique hkeys ((hsame.holds _ _).mpr hk) ((hsame.holds _ _).mpr hk')
  rw [(hs₁.tables id₁ hid₁ hcls₁).mem_queuedPorts hkeys,
    (hs₂.tables id₂ hid₂ hcls₂).mem_queuedPorts hkeys₂]
  simp only [receives_congr hsame.holds]

/-! ### Two classifiers -/

/-- A test for requests that succeed. -/
def succeeds (s : State) (e : Request) : Bool :=
  match parseWkCmd (.sample .vf) s.mng e.str with
  | .ok (.ok cmd) =>
    match execOneCmd (.sample .vf) e.env s cmd with
    | .ok (.ok, _) => true
    | _ => false
  | _ => false

/-- A test for requests that succeed and do not switch the tests for ports in use off. -/
def succeedsAlone (s : State) (e : Request) : Bool :=
  (CString.tokens ' ' e.str).length ≠ 8 && succeeds s e

theorem SyncGuard.of_succeedsAlone {e : Request} (h : succeedsAlone s e = true) :
    SyncGuard (.sample .vf) s e := by
  obtain ⟨hshort, hok⟩ := Bool.and_eq_true_iff.mp h
  have hnot : (CString.tokens ' ' e.str).length ≠ 8 := of_decide_eq_true hshort
  refine ⟨fun p id r _ _ hfull => absurd hfull hnot, fun cmd r hparse hexec => ?_⟩
  unfold succeeds at hok
  rw [hparse] at hok
  simp only [hexec] at hok
  obtain ⟨ret, s'⟩ := r
  cases ret with
  | ok => rfl
  | ng => exact absurd hok (by simp)

/-- The classifier in a slot has some rings as its tx ports, in this order, and the rings have
these addresses for untagged frames. -/
def RingEntries (id : ℕ) (order : List ℕ) (addr : ℕ → BitVec 64) (s : State) : Prop :=
  (s.mng.comp id).wkType = .cls ∧ (s.mng.comp id).ports .tx = order.map PortRef.ring ∧
    ∀ i ∈ order, (s.mng.iface (.ring i)).clsAttrs.macAddr = addr i ∧
      (s.mng.iface (.ring i)).clsAttrs.vlantag.vid = vlanUntaggedVid

instance (id : ℕ) (order : List ℕ) (addr : ℕ → BitVec 64) (s : State) :
    Decidable (RingEntries id order addr s) :=
  inferInstanceAs (Decidable (_ ∧ _ ∧ _))

theorem sameEntries_of_rings {order₁ order₂ : List ℕ} (h₁ : RingEntries id₁ order₁ addr s₁)
    (h₂ : RingEntries id₂ order₂ addr s₂) (hperm : ∀ i, i ∈ order₁ ↔ i ∈ order₂) :
    SameEntries s₁ id₁ s₂ id₂ := by
  unfold SameEntries
  rw [h₁.2.1, h₂.2.1]
  refine ⟨fun r => by simp only [List.mem_map, hperm], fun r hr => ?_⟩
  obtain ⟨i, hi, rfl⟩ := List.mem_map.mp hr
  obtain ⟨hmac₁, hvid₁⟩ := h₁.2.2 i hi
  obtain ⟨hmac₂, hvid₂⟩ := h₂.2.2 i ((hperm i).mp hi)
  exact ⟨hmac₁.trans hmac₂.symm, fun _ => hvid₁.trans hvid₂.symm⟩

/-- A classifier gets two rings, in one order or the other, and an entry for each. -/
def twoRings (first second addr : String) : List Request :=
  [.plain "component start cls 2 classifier", .plain ("port add ring:" ++ first ++ " tx cls"),
    .plain ("port add ring:" ++ second ++ " tx cls"),
    .plain "classifier_table add mac 52:54:00:12:34:56 ring:0",
    .plain ("classifier_table add mac " ++ addr ++ " ring:1")]

/-- An untagged frame to the address of both entries. -/
def toRing : Frame := ⟨0x563412005452#48, 0, 0x0800#16, []⟩

theorem keysDistinct_of_rings {order : List ℕ}
    (h : RingEntries id order addr s) (hkeys : ∀ i ∈ order, ∀ j ∈ order,
      clsKey vlanUntaggedVid (addr i) = clsKey vlanUntaggedVid (addr j) → i = j) :
    KeysDistinct s.mng.iface ((s.mng.comp id).ports .tx) := by
  have hkey {i : ℕ} (hi : i ∈ order) :
      portKey (s.mng.iface (.ring i)) = clsKey vlanUntaggedVid (addr i) := by
    rw [portKey, (h.2.2 i hi).1, (h.2.2 i hi).2]
  intro r hr r' hr' _ _ hsame
  rw [h.2.1] at hr hr'
  obtain ⟨i, hi, rfl⟩ := List.mem_map.mp hr
  obtain ⟨j, hj, rfl⟩ := List.mem_map.mp hr'
  rw [hkey hi, hkey hj] at hsame
  rw [hkeys i hi j hj hsame]

/-- Two rings with different addresses may be added in either order. -/
theorem queuedAlike_of_runs_rings : ∃ h₁ s₁ h₂ s₂,
    Run (workerSystem (.sample .vf)) h₁ s₁ ∧ Run (workerSystem (.sample .vf)) h₂ s₂ ∧
      (s₁.mng.comp 0).ports .tx = [.ring 0, .ring 1] ∧
      (s₂.mng.comp 0).ports .tx = [.ring 1, .ring 0] ∧
      ∀ f p, p ∈ queuedPorts (s₁.cls 0).ref f ↔ p ∈ queuedPorts (s₂.cls 0).ref f := by
  obtain ⟨h₁, s₁, hrun₁, -, hG₁, hr₁⟩ := exists_guarded_run succeedsAlone SyncGuard.of_succeedsAlone
    (startUp (.sample .vf)) (handleRequest (.sample .vf)) (twoRings "0" "1" "52:54:00:12:34:57")
    (RingEntries 0 [0, 1] fun i => 0x563412005452 + (i <<< 40 : ℕ)) (by decide +kernel)
  obtain ⟨h₂, s₂, hrun₂, -, hG₂, hr₂⟩ := exists_guarded_run succeedsAlone SyncGuard.of_succeedsAlone
    (startUp (.sample .vf)) (handleRequest (.sample .vf)) (twoRings "1" "0" "52:54:00:12:34:57")
    (RingEntries 0 [1, 0] fun i => 0x563412005452 + (i <<< 40 : ℕ)) (by decide +kernel)
  refine ⟨h₁, s₁, h₂, s₂, hrun₁, hrun₂, hr₁.2.1, hr₂.2.1, ?_⟩
  exact (queuedAlike_of_runs (.sample .vf) rfl hrun₁ hrun₂ hG₁ hG₂ (by decide) (by decide)
    hr₁.1 hr₂.1
    (sameEntries_of_rings hr₁ hr₂ (by simp [or_comm]))
    (keysDistinct_of_rings hr₁ (by decide))).2.2

/-- A ring of two classifiers gets its entry before or after the second one has the ring. -/
def sharedRing (before : Bool) : List Request :=
  let entry := .plain "classifier_table add mac 52:54:00:12:34:56 ring:0"
  let second := .plain "port add ring:0 tx c2 add_vlantag 10 0"
  [.plain "component start c1 2 classifier", .plain "component start c2 3 classifier",
    .plain "port add ring:0 tx c1"] ++ if before then [entry, second] else [second, entry]

/-- A run to a classifier whose rings all have the address of the frame. -/
theorem exists_ringRun {G : State → Request → Prop} (c : State → Request → Bool)
    (hG : ∀ {s e}, c s e = true → G s e) (reqs : List Request) (id : ℕ) (order : List ℕ)
    (queued : List PortIdx)
    (h : (reqs.foldlM (checked c (handleRequest (.sample .vf))) (startUp (.sample .vf))).any
      (fun s => RingEntries id order (fun _ => 0x563412005452) s ∧
        queuedPorts (s.cls id).ref toRing = queued) = true) :
    ∃ h s, Run (workerSystem (.sample .vf)) h s ∧ h.map Prod.snd = reqs.reverse ∧ Guarded G h ∧
      RingEntries id order (fun _ => 0x563412005452) s ∧
      queuedPorts (s.cls id).ref toRing = queued :=
  exists_guarded_run c hG _ _ reqs _ h

/-- **From requests to packets.**  In every run whose requests succeed and give no port a second
owner, a classifier whose tx ports have different keys queues every frame on the ports that are to
receive it, as the management data have them. -/
theorem receives_of_run (P : Platform) (hvf : P.module = .vf) {h : List (State × Request)}
    {s : State} (hrun : Run (workerSystem P) h s) (hG : Guarded (SyncGuard P) h) {id : ℕ}
    (hid : id < P.maxLcore) (hcls : (s.mng.comp id).wkType = .cls)
    (hkeys : KeysDistinct s.mng.iface ((s.mng.comp id).ports .tx)) :
    Queues (s.cls id).ref ∧ ∀ f p, p ∈ queuedPorts (s.cls id).ref f ↔
      ∃ r, Receives (Holds s.mng.iface ((s.mng.comp id).ports .tx)) (getVid f) f.dAddr r ∧
        r.portIdx = p := by
  have hs := synced_of_run hvf hrun hG
  exact ⟨hs.queues hvf hid hcls, (hs.tables id hid hcls).mem_queuedPorts hkeys⟩

/-- Of two rings with different addresses, the one with the address of the frame is to receive it,
and it is queued there. -/
theorem receives_of_run_rings : ∃ h s, Run (workerSystem (.sample .vf)) h s ∧
    (s.mng.comp 0).ports .tx = [.ring 0, .ring 1] ∧
    queuedPorts (s.cls 0).ref toRing = [⟨.ring, 0, 0⟩] ∧
    ∀ r, Receives (Holds s.mng.iface [.ring 0, .ring 1]) (getVid toRing) toRing.dAddr r ↔
      r = .ring 0 := by
  obtain ⟨h, s, hrun, -, hG, hr, hqueued⟩ := exists_guarded_run succeedsAlone
    SyncGuard.of_succeedsAlone (startUp (.sample .vf)) (handleRequest (.sample .vf))
    (twoRings "0" "1" "52:54:00:12:34:57")
    (fun s => RingEntries 0 [0, 1] (fun i => 0x563412005452 + (i <<< 40 : ℕ)) s ∧
      queuedPorts (s.cls 0).ref toRing = [⟨.ring, 0, 0⟩]) (by decide +kernel)
  obtain ⟨-, hmem⟩ := receives_of_run (.sample .vf) rfl hrun hG (by decide) hr.1
    (keysDistinct_of_rings hr (by decide))
  have hports : (s.mng.comp 0).ports .tx = [.ring 0, .ring 1] := hr.2.1
  rw [hports] at hmem
  have honly {r : PortRef} (hidx : r.portIdx = ⟨.ring, 0, 0⟩) : r = .ring 0 := by
    cases r <;> cases hidx
    rfl
  refine ⟨h, s, hrun, hports, hqueued, fun r => ⟨fun hrec => ?_, ?_⟩⟩
  · have hin := (hmem toRing r.portIdx).mpr ⟨r, hrec, rfl⟩
    rw [hqueued, List.mem_singleton] at hin
    exact honly hin
  · rintro rfl
    obtain ⟨r, hrec, hidx⟩ := (hmem toRing ⟨.ring, 0, 0⟩).mp (hqueued ▸ List.mem_singleton_self _)
    rwa [honly hidx] at hrec

/-- **Order matters** where two rings have the same address, and where a ring has two owners: the
same entries have been made by requests that succeed, and a frame goes to other ports. -/
theorem not_queuedAlike_of_order :
    (∃ h₁ s₁ h₂ s₂, Run (workerSystem (.sample .vf)) h₁ s₁ ∧
      Run (workerSystem (.sample .vf)) h₂ s₂ ∧
      h₁.map Prod.snd = (twoRings "0" "1" "52:54:00:12:34:56").reverse ∧
      h₂.map Prod.snd = (twoRings "1" "0" "52:54:00:12:34:56").reverse ∧
      Guarded (SyncGuard (.sample .vf)) h₁ ∧ Guarded (SyncGuard (.sample .vf)) h₂ ∧
      SameEntries s₁ 0 s₂ 0 ∧
      queuedPorts (s₁.cls 0).ref toRing = [⟨.ring, 1, 0⟩] ∧
      queuedPorts (s₂.cls 0).ref toRing = [⟨.ring, 0, 0⟩]) ∧
    ∃ h₁ s₁ h₂ s₂, Run (workerSystem (.sample .vf)) h₁ s₁ ∧
      Run (workerSystem (.sample .vf)) h₂ s₂ ∧
      h₁.map Prod.snd = (sharedRing true).reverse ∧ h₂.map Prod.snd = (sharedRing false).reverse ∧
      Guarded (fun s e => succeeds s e = true) h₁ ∧ Guarded (fun s e => succeeds s e = true) h₂ ∧
      SameEntries s₁ 1 s₂ 1 ∧
      queuedPorts (s₁.cls 1).ref toRing = [⟨.ring, 0, 0⟩] ∧
      queuedPorts (s₂.cls 1).ref toRing = [] := by
  constructor
  · obtain ⟨h₁, s₁, hrun₁, hmap₁, hG₁, hr₁, hq₁⟩ := exists_ringRun succeedsAlone
      SyncGuard.of_succeedsAlone (twoRings "0" "1" "52:54:00:12:34:56") 0 [0, 1]
      [⟨.ring, 1, 0⟩] (by decide +kernel)
    obtain ⟨h₂, s₂, hrun₂, hmap₂, hG₂, hr₂, hq₂⟩ := exists_ringRun succeedsAlone
      SyncGuard.of_succeedsAlone (twoRings "1" "0" "52:54:00:12:34:56") 0 [1, 0]
      [⟨.ring, 0, 0⟩] (by decide +kernel)
    exact ⟨h₁, s₁, h₂, s₂, hrun₁, hrun₂, hmap₁, hmap₂, hG₁, hG₂,
      sameEntries_of_rings hr₁ hr₂ (by simp [or_comm]), hq₁, hq₂⟩
  · obtain ⟨h₁, s₁, hrun₁, hmap₁, hG₁, hr₁, hq₁⟩ := exists_ringRun succeeds id
      (sharedRing true) 1 [0] [⟨.ring, 0, 0⟩] (by decide +kernel)
    obtain ⟨h₂, s₂, hrun₂, hmap₂, hG₂, hr₂, hq₂⟩ := exists_ringRun succeeds id
      (sharedRing false) 1 [0] [] (by decide +kernel)
    exact ⟨h₁, s₁, h₂, s₂, hrun₁, hrun₂, hmap₁, hmap₂, hG₁, hG₂,
      sameEntries_of_rings hr₁ hr₂ fun _ => Iff.rfl, hq₁, hq₂⟩

end SoftPatchPanel.Vf
