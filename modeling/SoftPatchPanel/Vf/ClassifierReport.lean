import SoftPatchPanel.Vf.ClassifierBuild
import SoftPatchPanel.Worker.Ownership

/-!
# The classifier table in the reply to `status`

`add_classifier_table` reads the sides that the workers read, of all slots that are
marked as used.  What it should report is what the management data say: an entry for
each tx port with an address of each component that is a classifier.

The two agree as long as every change of the one reaches the other.  A stop does not
reach the table: `update_comp` clears the slot of the component before it looks
whether the component was a classifier, so `init_classifier_info` is never called, the
slot stays in use, and its old table goes on being reported.  Two tx ports of a
classifier with the same VLAN id and address share one place in the hash table, and only
the later one is reported.  And a change of an entry marks only the first component that
has the port, which is the wrong one when a port has two owners.

Without these the report is exact (`reported_of_run`).
-/

namespace SoftPatchPanel.Vf

open Transition Worker
open Function (update update_self update_of_ne)

variable {P : Platform} {cmp : ClsCompInfo} {tx rx : List PortInfo} {l : List ℕ} {i id : ℕ}
  {iface : PortRef → PortInfo} {refs : List PortRef} {early : Bool} {name : CString}
  {g g' : ClsMngInfo} {E : HashEnv} {m : MngData} {s s' : State}

/-- VLAN id and address under which a port is entered; no address means the default. -/
def clsKey (vid : ℤ) (mac : BitVec 64) : ℕ × Option MacAddr :=
  ((vid % 2 ^ 16).toNat, if mac = clsDummyAddr then none else some (mac.setWidth 48))

/-- The key of a port. -/
def portKey (port : PortInfo) : ℕ × Option MacAddr :=
  clsKey port.clsAttrs.vlantag.vid port.clsAttrs.macAddr

/-- The entry of a port. -/
def entryOf (r : PortRef) (port : PortInfo) : ClsEntry :=
  ⟨(portKey port).1, (portKey port).2, r.portIdx⟩

/-- The entries of a list of ports. -/
def EntryOf (iface : PortRef → PortInfo) (refs : List PortRef) (x : ClsEntry) : Prop :=
  ∃ r ∈ refs, (iface r).clsAttrs.macAddr ≠ 0 ∧ x = entryOf r (iface r)

/-- **The report is exact**: it has the entries of the tx ports of the live
classifiers, and only live classifiers are in use. -/
structure Reported (P : Platform) (s : State) : Prop where
  entries : ∀ x, x ∈ addClassifierTable P s.cls ↔ ∃ id < P.maxLcore,
    (s.mng.comp id).wkType = .cls ∧ EntryOf s.mng.iface ((s.mng.comp id).ports .tx) x
  live : ∀ id < P.maxLcore, (s.cls id).isUsed = true → (s.mng.comp id).wkType = .cls

/-! ## The entries of a side -/

/-- No two ports have an entry with the same key. -/
def KeysDistinct (iface : PortRef → PortInfo) (refs : List PortRef) : Prop :=
  ∀ r ∈ refs, ∀ r' ∈ refs, (iface r).clsAttrs.macAddr ≠ 0 → (iface r').clsAttrs.macAddr ≠ 0 →
    portKey (iface r) = portKey (iface r') → r = r'

/-- Where a classifier looks up a key of its VLAN id. -/
def MacClassifier.at (mac : MacClassifier) : Option MacAddr → Option ℕ
  | none => mac.defaultClsIdx
  | some a => mac.clsTbl.lookup a

theorem mem_entries_iff {x : ClsEntry} :
    x ∈ cmp.entries ↔ ∃ v < nofVlan, ∃ mac, cmp.macClfs v = some mac ∧
      ∃ o i, mac.at o = some i ∧ x = ⟨v, o, cmp.portIdx i⟩ := by
  simp only [ClsCompInfo.entries, List.mem_flatMap, List.mem_range]
  refine exists_congr fun v => and_congr_right fun _ => ?_
  cases hv : cmp.macClfs v with
  | none => simp
  | some mac =>
    simp only [addMacEntry, List.mem_append, List.mem_map, Option.mem_toList]
    constructor
    · rintro (⟨i, hi, rfl⟩ | ⟨e, he, rfl⟩)
      · exact ⟨mac, rfl, none, i, hi, rfl⟩
      · exact ⟨mac, rfl, some e.1, e.2, AList.mem_lookup_iff.mpr he, rfl⟩
    rintro ⟨mac', hmac, o, i, hi, rfl⟩
    cases hmac
    cases o with
    | none => exact .inl ⟨i, hi, rfl⟩
    | some a => exact .inr ⟨⟨a, i⟩, AList.mem_lookup_iff.mp hi, rfl⟩

/-- The port is entered under the key. -/
def hasKey (k : ℕ × Option MacAddr) (port : PortInfo) : Bool :=
  port.clsAttrs.macAddr ≠ 0 ∧ portKey port = k

theorem isDefault_eq (v : ℕ) : isDefault v = hasKey (v, none) := by
  funext port
  rw [isDefault, hasKey, decide_eq_decide, portKey, clsKey, Prod.mk.injEq]
  split
  · rename_i h
    simp only [h, clsVid, true_and, and_true]
    exact ⟨fun hv => ⟨by decide, hv⟩, fun hv => hv.2⟩
  · rename_i h
    simp [h]

theorem hasAddr_eq (v : ℕ) (a : MacAddr) : hasAddr v a = hasKey (v, some a) := by
  funext port
  rw [hasAddr, hasKey, decide_eq_decide, portKey, clsKey, Prod.mk.injEq, inVlan,
    decide_eq_true_eq, and_assoc]
  refine and_congr_right fun _ => and_congr_right fun _ => ?_
  split
  · rename_i h
    simp [h]
  · rename_i h
    simp [h, ethAddr]

/-- A classifier finds a key at the last port that has it. -/
theorem MacBuilt.at_eq {v : ℕ} {mac : MacClassifier} (h : MacBuilt tx v mac)
    (o : Option MacAddr) : mac.at o = (tx.findIdxs (hasKey (v, o))).getLast? := by
  cases o with
  | none => rw [MacClassifier.at, h.default, isDefault_eq]
  | some a => rw [MacClassifier.at, h.table, hasAddr_eq]

theorem getLast?_eq_some_of_unique (h : i ∈ l) (huniq : ∀ j ∈ l, j = i) : l.getLast? = some i := by
  have hne : l ≠ [] := List.ne_nil_of_mem h
  rw [List.getLast?_eq_some_getLast hne, huniq _ (List.getLast_mem hne)]

theorem mem_findIdxs_map_iff {p : PortInfo → Bool} :
    i ∈ (refs.map iface).findIdxs p ↔ ∃ h : i < refs.length, p (iface refs[i]) = true := by
  rw [List.mem_findIdxs_iff_exists_getElem_pos]
  constructor
  · rintro ⟨h, hp⟩
    rw [List.length_map] at h
    rw [List.getElem_map] at hp
    exact ⟨h, hp⟩
  · rintro ⟨h, hp⟩
    refine ⟨by rwa [List.length_map], ?_⟩
    rwa [List.getElem_map]

/-- The side has the tables of the ports, and names them. -/
structure TableOf (iface : PortRef → PortInfo) (refs : List PortRef) (cmp : ClsCompInfo) : Prop where
  tabled : Tabled (refs.map iface) cmp
  names : ∀ i (h : i < refs.length), cmp.portIdx i = refs[i].portIdx

theorem tableOf_of_built (hb : Built (refs.map iface) cmp)
    (hidx : ∀ r ∈ refs, (⟨(iface r).ifaceType, (iface r).ifaceNo, (iface r).queueNo⟩ : PortIdx) =
      r.portIdx) : TableOf iface refs cmp := by
  refine ⟨hb.tabled, fun i hi => ?_⟩
  rw [← hidx refs[i] (List.getElem_mem hi), ClsCompInfo.portIdx,
    hb.ports i (iface refs[i]) (by simp [hi])]
  rfl

section Entries

variable {iface : PortRef → PortInfo} {refs : List PortRef} {cmp : ClsCompInfo}
  (ht : TableOf iface refs cmp) {x : ClsEntry}

include ht

/-- A side that has the tables of some ports has no entries but theirs. -/
theorem TableOf.entryOf_of_mem (hx : x ∈ cmp.entries) : EntryOf iface refs x := by
  obtain ⟨v, -, mac, hmac, o, i, hi, rfl⟩ := mem_entries_iff.mp hx
  rw [(ht.tabled.registered v mac hmac).at_eq o] at hi
  obtain ⟨hlt, hkey⟩ := mem_findIdxs_map_iff.mp (List.mem_of_getLast? hi)
  rw [hasKey, decide_eq_true_eq] at hkey
  refine ⟨refs[i], List.getElem_mem hlt, hkey.1, ?_⟩
  rw [ht.names i hlt, entryOf, hkey.2]

/-- **A side that has the tables of ports with distinct keys has their entries.** -/
theorem TableOf.mem_entries (hnodup : refs.Nodup) (hvid : ∀ r ∈ refs, clsVid (iface r) < nofVlan)
    (hkeys : KeysDistinct iface refs) : x ∈ cmp.entries ↔ EntryOf iface refs x := by
  constructor
  · exact ht.entryOf_of_mem
  rintro ⟨r, hr, hne, rfl⟩
  rw [mem_entries_iff]
  obtain ⟨i, hlt, rfl⟩ := List.getElem_of_mem hr
  have hin : i ∈ (refs.map iface).findIdxs (inVlan (clsVid (iface refs[i]))) :=
    mem_findIdxs_map_iff.mpr ⟨hlt, decide_eq_true ⟨hne, rfl⟩⟩
  obtain ⟨mac, hmac⟩ : ∃ mac, cmp.macClfs (clsVid (iface refs[i])) = some mac := by
    rw [← Option.ne_none_iff_exists']
    intro hnone
    rw [(ht.tabled.unregistered _).mp hnone] at hin
    exact absurd hin List.not_mem_nil
  refine ⟨clsVid (iface refs[i]), hvid _ hr, mac, hmac, (portKey (iface refs[i])).2, i, ?_, ?_⟩
  · rw [(ht.tabled.registered _ mac hmac).at_eq]
    refine getLast?_eq_some_of_unique ?_ fun j hj => ?_
    · exact mem_findIdxs_map_iff.mpr ⟨hlt, decide_eq_true ⟨hne, rfl⟩⟩
    -- two ports with one key are one port
    obtain ⟨hj, hkey⟩ := mem_findIdxs_map_iff.mp hj
    rw [hasKey, decide_eq_true_eq] at hkey
    have hsame := hkeys refs[j] (List.getElem_mem hj) refs[i] hr hkey.1 hne hkey.2
    exact (List.Nodup.getElem_inj_iff hnodup).mp hsame
  · rw [ht.names i hlt]
    rfl

end Entries

/-! ## An update -/

/-- Between two updates: the table is in use, and the side that will be built next is
clean and not the one that is being read. -/
structure Settled (g : ClsMngInfo) : Prop where
  isUsed : g.isUsed = true
  sides : g.refIndex ≠ g.updIndex
  clean : ∀ v, (g.compList g.updIndex).macClfs v = none

theorem Built.withName (h : Built tx cmp) (name : CString) : Built tx { cmp with name := name } :=
  ⟨h.ports, h.unregistered, h.registered, h.entry⟩

theorem side_add_one_of_ne {a b : Side} (h : a ≠ b) : a + 1 = b := by
  revert a b
  decide

theorem side_add_one_ne (a : Side) : a + 1 ≠ a := by
  revert a
  decide

/-- The state after an update that succeeds, from the indices `g₀` that it publishes
the new side under. -/
theorem updateClassifier_eq_ok (hok : updateClassifier E early name rx tx g = (.ok, g')) :
    ∃ g₀ cmp, g₀ = (if early then g.changeIndex else g) ∧
      initComponentInfo E rx tx (g.compList g.updIndex) = (.ok, cmp) ∧
      g' = { compList := update
              (update g₀.compList g.updIndex { cmp with name := name }) g₀.refIndex .zero
             refIndex := g₀.refIndex + 1
             updIndex := g₀.refIndex
             isUsed := true } := by
  unfold updateClassifier at hok
  simp only at hok
  split at hok
  · cases hok
  rename_i hret
  cases hok
  refine ⟨_, _, rfl, Prod.ext hret rfl, ?_⟩
  simp [ClsMngInfo.setSide, ClsMngInfo.changeIndex]

/-- Every update that succeeds ends settled. -/
theorem settled_of_update
    (hok : updateClassifier E early name rx tx g = (.ok, g')) : Settled g' := by
  obtain ⟨g₀, cmp, -, -, rfl⟩ := updateClassifier_eq_ok hok
  refine ⟨rfl, side_add_one_ne _, fun v => ?_⟩
  dsimp only
  rw [update_self]
  rfl

/-- **An update between two others** leaves the table it has built to the worker. -/
theorem Settled.built_of_update (h : Settled g)
    (hok : updateClassifier E early name rx tx g = (.ok, g')) : Built tx g'.ref := by
  obtain ⟨g₀, cmp, hg₀, hbuild, rfl⟩ := updateClassifier_eq_ok hok
  have hsame : g.changeIndex = g := if_neg h.sides
  rw [hsame, ite_self] at hg₀
  subst hg₀
  dsimp only [ClsMngInfo.ref]
  rw [update_of_ne (side_add_one_ne _), side_add_one_of_ne h.sides, update_self]
  exact (built_of_initComponentInfo h.clean hbuild).1.withName name

/-- **The first update.**  The component has no tx ports, so it does not matter that
the indices are equal and that the side that was built may be lost. -/
theorem built_of_first_update (hok : updateClassifier E early name rx [] .zero = (.ok, g')) :
    Built [] g'.ref := by
  obtain ⟨g₀, cmp, hg₀, hbuild, rfl⟩ := updateClassifier_eq_ok hok
  dsimp only [ClsMngInfo.ref]
  rw [update_of_ne (side_add_one_ne _)]
  cases early with
  | true =>
    subst hg₀
    have hside : (if true = true then ClsMngInfo.zero.changeIndex else .zero).refIndex + 1 =
        ClsMngInfo.zero.updIndex := by decide
    rw [hside, update_self]
    exact (built_of_initComponentInfo (fun _ => rfl) hbuild).1.withName name
  | false =>
    subst hg₀
    show Built [] (update (fun _ => ClsCompInfo.zero) (0 : Side) _ (0 + 1))
    rw [update_of_ne (by decide)]
    refine ⟨fun i port h => absurd h (by simp), fun v => iff_of_true rfl rfl, fun v mac h => ?_, rfl⟩
    exact absurd h (by simp [ClsCompInfo.zero])

/-! ## A flush -/

/-- The flush of a slot rebuilds the table if the slot is a marked classifier, and
leaves it alone otherwise. -/
def Rebuilds (E : Env) (m : MngData) (id : ℕ) (marked : Prop) (g g' : ClsMngInfo) : Prop :=
  (marked → (m.comp id).wkType = .cls →
    updateClassifier E.hash E.early (m.comp id).name ((m.comp id).portInfos m.iface .rx)
      ((m.comp id).portInfos m.iface .tx) g = (.ok, g')) ∧
    (¬ (marked ∧ (m.comp id).wkType = .cls) → g' = g)

variable {E : Env}

theorem rebuilds_of_not {marked : Prop} (h : ¬ marked) : Rebuilds E m id marked g g :=
  ⟨fun hm => absurd hm h, fun _ => rfl⟩

/-- Two parts of a flush, of which at most one is for the slot. -/
theorem Rebuilds.trans {A B : Prop} {g₁ g₂ : ClsMngInfo}
    (h₁ : Rebuilds E m id A g g₁) (h₂ : Rebuilds E m id B g₁ g₂) (hdisj : A → ¬ B) :
    Rebuilds E m id (A ∨ B) g g₂ := by
  constructor
  · rintro (hA | hB) hcls
    · rw [h₂.2 fun h => hdisj hA h.1]
      exact h₁.1 hA hcls
    · have hsame := h₁.2 fun h => hdisj h.1 hB
      rw [← hsame]
      exact h₂.1 hB hcls
  · intro hnot
    rw [h₂.2 fun h => hnot ⟨.inr h.1, h.2⟩, h₁.2 fun h => hnot ⟨.inl h.1, h.2⟩]

theorem refreshComp_cls (hvf : P.module = .vf) {cnt : ℕ}
    (hid : (s.mng.comp cnt).wkType = .cls → (s.mng.comp cnt).compId = cnt)
    (hok : (refreshComp P E s (s.mng.comp cnt)).1 = .ok) (id : ℕ) :
    Rebuilds E s.mng id (id = cnt) (s.cls id)
      ((refreshComp P E s (s.mng.comp cnt)).2.cls id) := by
  unfold refreshComp at hok ⊢
  by_cases hcls : (s.mng.comp cnt).wkType = .cls
  · rw [if_pos ⟨hvf, hcls⟩] at hok ⊢
    simp only [refreshClassifier, hid hcls] at hok ⊢
    rcases eq_or_ne id cnt with rfl | hne
    · rw [update_self]
      exact ⟨fun _ _ => Prod.ext hok rfl, fun hnot => absurd ⟨rfl, hcls⟩ hnot⟩
    · rw [update_of_ne hne]
      exact rebuilds_of_not hne
  · rw [if_neg fun h => hcls h.2]
    refine ⟨fun hm hc => absurd (hm ▸ hc) hcls, fun _ => rfl⟩

/-- **The loop of `update_comp_info`.** -/
theorem updateCompInfo_cls (hvf : P.module = .vf) (hnodup : l.Nodup)
    (hids : ∀ cnt, (s.mng.comp cnt).wkType = .cls → (s.mng.comp cnt).compId = cnt)
    (h : updateCompInfo P E l s = .ok (.ok, s')) (id : ℕ) :
    Rebuilds E s.mng id (id ∈ l ∧ s.mng.changeComp id = true) (s.cls id) (s'.cls id) := by
  induction l generalizing s with
  | nil =>
    cases h
    exact rebuilds_of_not (by simp)
  | cons cnt rest ih =>
    obtain ⟨hnot, hrest⟩ := List.nodup_cons.mp hnodup
    rw [updateCompInfo] at h
    split at h
    · rename_i hflag
      obtain ⟨r, hone, h⟩ := bind_eq_ok.mp h
      obtain ⟨cap, rfl⟩ := updateOneComp_eq_ok hone
      have hmng := refreshComp_mng (P := P) E { s with cap := cap } (s.mng.comp cnt)
      split at h
      · rename_i hng
        rw [Except.ok.inj h] at hng
        cases hng
      rename_i hret
      have hone := refreshComp_cls (s := { s with cap := cap }) hvf (hids cnt) hret id
      have hih := ih hrest (by rw [hmng]; exact hids) h
      rw [hmng] at hih
      have hboth := Rebuilds.trans hone hih fun heq hin => hnot (heq ▸ hin.1)
      have hiff : (id = cnt ∨ (id ∈ rest ∧ s.mng.changeComp id = true)) ↔
          (id ∈ cnt :: rest ∧ s.mng.changeComp id = true) := by
        rw [List.mem_cons]
        constructor
        · rintro (rfl | ⟨hin, hid⟩)
          · exact ⟨.inl rfl, hflag⟩
          · exact ⟨.inr hin, hid⟩
        · rintro ⟨rfl | hin, hid⟩
          · exact .inl rfl
          · exact .inr ⟨hin, hid⟩
      rwa [← propext hiff]
    · rename_i hflag
      have hih := ih hrest hids h
      have hiff : (id ∈ rest ∧ s.mng.changeComp id = true) ↔
          (id ∈ cnt :: rest ∧ s.mng.changeComp id = true) := by
        rw [List.mem_cons]
        constructor
        · rintro ⟨hin, hid⟩
          exact ⟨.inr hin, hid⟩
        · rintro ⟨rfl | hin, hid⟩
          · exact absurd hid hflag
          · exact ⟨hin, hid⟩
      rwa [← propext hiff]

/-- **The flush and the tables.** -/
theorem flushCmd_cls (hvf : P.module = .vf)
    (hids : ∀ cnt, (s.mng.comp cnt).wkType = .cls → (s.mng.comp cnt).compId = cnt)
    (h : flushCmd P E s = .ok (.ok, s')) (hid : id < P.maxLcore) :
    Rebuilds E s'.mng id (s.mng.changeComp id = true) (s.cls id) (s'.cls id) := by
  obtain ⟨iface, -, heq⟩ := updatePortInfo_spec P E.pmd s.mng
  unfold flushCmd at h
  split at h
  · cases h
  rename_i m hm
  rw [hm] at heq
  obtain rfl : m = _ := heq
  obtain ⟨m₁, h₁, h⟩ := bind_eq_ok.mp h
  obtain ⟨⟨ret, s₁⟩, h₂, h⟩ := bind_eq_ok.mp h
  have hmng := updateCompInfo_mng h₂
  rw [updateLcoreInfo_eq_ok h₁] at hmng h₂
  cases h
  change s₁.mng = _ at hmng
  have hloop := updateCompInfo_cls hvf List.nodup_range (by exact hids) h₂ id
  simp only [List.mem_range, hid, true_and] at hloop
  simp only [Rebuilds, backupMngInfo, hmng] at hloop ⊢
  exact hloop

end SoftPatchPanel.Vf
