import SoftPatchPanel.Vf.ConfigOrder
import SoftPatchPanel.Vf.TagUpdate

/-!
# What an entry of a classifier table changes

`classifier_table add` gives a tx port an entry, and the table of its classifier is built anew.
For unicast frames the new table should differ from the old one in one place, the VLAN id and the
address of the entry, and `classifier_table del` should undo it.

A unicast frame goes to the last port with its VLAN id and address, or else to the last default of
the VLAN id, or else to the last default of untagged frames (`targets_unicast`).  An entry with an
address of its own adds one candidate to the first of these, so it changes what it should
(`local_iff`) unless a later port has the same VLAN id and address already.  Two addresses are
not on their own: zero stands for a port without an entry, so it is entered and changes nothing;
and `00:00:00:00:00:01` stands for the default, so with it every other frame of the VLAN id that no
entry fits moves as well.

Untagged frames are classified under the id 4095.  An entry for them moves the frames that carry
this id in a tag, and an entry for this id moves untagged frames (`entryLocal_iff_local`).

The deletion of an entry that has been entered is accepted, and it succeeds if its flush does
(`EntryRequest.succeeds_del_iff`).
-/

namespace SoftPatchPanel.Vf

open Transition Worker
open Function (update update_self update_of_ne)

/-! ## Unicast frames -/

variable {tx : List PortInfo} {v : ℕ} {d m : MacAddr} {k : ℕ × Option MacAddr} {port : PortInfo}
  {o : Option ℕ} {r : PortRef} {P : Platform} {mac req : CString} {a : ClsCmdAttrs} {e : Request}

/-- The last port with a key. -/
def lastWith (tx : List PortInfo) (k : ℕ × Option MacAddr) : Option ℕ :=
  (tx.findIdxs (hasKey k)).getLast?

/-- The port that a unicast frame goes to. -/
def destination (tx : List PortInfo) (v : ℕ) (d : MacAddr) : Option ℕ :=
  (lastWith tx (v, some d)).or ((lastWith tx (v, none)).or (lastWith tx (vlanUntaggedVid, none)))

theorem targets_unicast (hd : d.getLsbD 0 = false) :
    targets tx v d = (destination tx v d).toList := by
  have hno : ¬(tx.findIdxs (inVlan v) ≠ [] ∧ d.getLsbD 0 = true) := by
    rw [hd]
    exact fun h => absurd h.2 (by simp)
  unfold targets destination lastWith
  rw [hasAddr_eq, isDefault_eq, isDefault_eq]
  cases (tx.findIdxs (hasKey (v, some d))).getLast? with
  | some i => rfl
  | none =>
    simp only
    rw [if_neg hno, Option.none_or]

/-- The last port with a key, seen from one of the ports. -/
theorem lastWith_split (before after : List PortInfo) (port : PortInfo) :
    lastWith (before ++ port :: after) k =
      ((after.findIdxs (hasKey k) (before.length + 1)).getLast?).or
        (if hasKey k port then some before.length else lastWith before k) := by
  rw [lastWith, List.findIdxs_append, List.findIdxs_cons, Nat.zero_add]
  split
  · rw [List.getLast?_append, List.getLast?_cons]
    cases (after.findIdxs (hasKey k) (before.length + 1)).getLast? <;> rfl
  · rw [List.getLast?_append]
    rfl

section Split

variable {before after : List PortInfo} {port port₀ : PortInfo}

theorem lastWith_congr (h : hasKey k port = false) (h₀ : hasKey k port₀ = false) :
    lastWith (before ++ port :: after) k = lastWith (before ++ port₀ :: after) k := by
  rw [lastWith_split, lastWith_split, h, h₀]

/-- A port without the key is not the last one with it. -/
theorem lastWith_ne (h : hasKey k port = false) :
    lastWith (before ++ port :: after) k ≠ some before.length := by
  intro hlast
  have hmem := List.mem_of_getLast? hlast
  rw [List.mem_findIdxs_iff_exists_getElem_pos] at hmem
  obtain ⟨hlt, hkey⟩ := hmem
  rw [List.getElem_append_right (Nat.le_refl _)] at hkey
  simp [h] at hkey

/-- A port with the key is the last one with it if none behind it has the key. -/
theorem lastWith_eq_iff (h : hasKey k port = true) :
    lastWith (before ++ port :: after) k = some before.length ↔
      ∀ port' ∈ after, hasKey k port' = false := by
  rw [lastWith_split, if_pos h, ← List.findIdxs_eq_nil_iff (s := before.length + 1)]
  constructor
  · intro hlast
    by_contra hne
    rw [List.getLast?_eq_some_getLast hne, Option.some_or] at hlast
    have hle := List.ge_of_mem_findIdxs _ (List.getLast_mem hne)
    have heq := Option.some.inj hlast
    omega
  · intro hnil
    rw [hnil]
    rfl

/-- A port without any key gets no frame. -/
theorem destination_ne (h : ∀ k, hasKey k port = false) :
    destination (before ++ port :: after) v d ≠ some before.length := by
  intro hdest
  rw [destination, Option.or_eq_some_iff, Option.or_eq_some_iff] at hdest
  rcases hdest with hdest | ⟨-, hdest | ⟨-, hdest⟩⟩ <;> exact lastWith_ne (h _) hdest

/-- A frame for which the port has no key goes where it would go without the port. -/
theorem destination_congr (h₀ : ∀ k, hasKey k port₀ = false)
    (h : ∀ o, hasKey (v, o) port = true → o ≠ none ∧ o ≠ some d)
    (hdefault : hasKey (vlanUntaggedVid, none) port = false) :
    destination (before ++ port :: after) v d = destination (before ++ port₀ :: after) v d := by
  have hnot (o : Option MacAddr) (ho : o = none ∨ o = some d) : hasKey (v, o) port = false := by
    rw [← Bool.not_eq_true]
    exact fun hkey => ho.elim (h o hkey).1 (h o hkey).2
  unfold destination
  rw [lastWith_congr (hnot _ (.inr rfl)) (h₀ _), lastWith_congr (hnot _ (.inl rfl)) (h₀ _),
    lastWith_congr hdefault (h₀ _)]

/-- A port that is entered for the address of a frame gets it if no later port is. -/
theorem destination_eq_iff (h : hasKey (v, some d) port = true) :
    destination (before ++ port :: after) v d = some before.length ↔
      ∀ port' ∈ after, hasKey (v, some d) port' = false := by
  rw [← lastWith_eq_iff h, destination, lastWith_split, if_pos h]
  cases (after.findIdxs (hasKey (v, some d)) (before.length + 1)).getLast? with
  | none => rfl
  | some j => rfl

end Split

theorem lastWith_eq_none (h : ∀ port ∈ tx, hasKey k port = false) : lastWith tx k = none := by
  rw [lastWith, List.findIdxs_eq_nil_iff.mpr h]
  rfl

/-- There are more addresses than ports. -/
theorem exists_free_address (tx : List PortInfo) (hlen : tx.length < 2 ^ 15) (v : ℕ) (m : MacAddr) :
    ∃ d : MacAddr, d.getLsbD 0 = false ∧ d ≠ m ∧ ∀ port ∈ tx, hasKey (v, some d) port = false := by
  have hcard : (insert m (tx.map ethAddr).toFinset).card <
      ((Finset.range (tx.length + 2)).image fun i => BitVec.ofNat 48 (2 * i)).card := by
    have hinj : Set.InjOn (fun i => BitVec.ofNat 48 (2 * i)) (Finset.range (tx.length + 2)) := by
      intro i hi j hj heq
      rw [Finset.coe_range, Set.mem_Iio] at hi hj
      have hnat := congrArg BitVec.toNat heq
      simp only [BitVec.toNat_ofNat] at hnat
      omega
    rw [Finset.card_image_of_injOn hinj, Finset.card_range]
    have hle := Finset.card_insert_le m (tx.map ethAddr).toFinset
    have hlist := List.toFinset_card_le (tx.map ethAddr)
    rw [List.length_map] at hlist
    omega
  obtain ⟨d, hmem, hnot⟩ := Finset.exists_mem_notMem_of_card_lt_card hcard
  obtain ⟨i, -, rfl⟩ := Finset.mem_image.mp hmem
  rw [Finset.mem_insert, not_or, List.mem_toFinset] at hnot
  refine ⟨_, ?_, hnot.1, fun port hport => ?_⟩
  · rw [BitVec.getLsbD_ofNat]
    simp
  rw [hasKey, decide_eq_false_iff_not]
  rintro ⟨-, hkey⟩
  refine hnot.2 (List.mem_map.mpr ⟨port, hport, ?_⟩)
  have haddr := congrArg Prod.snd hkey
  rw [portKey, clsKey] at haddr
  dsimp only at haddr
  split at haddr
  · cases haddr
  · exact Option.some.inj haddr

/-- A port that gets a frame as the default of its VLAN id gets others. -/
theorem exists_destination_eq {before after : List PortInfo}
    (hlen : (before ++ port :: after).length < 2 ^ 15)
    (h : ∀ k, hasKey k port = true → k = (v, none))
    (hdest : destination (before ++ port :: after) v m = some before.length) :
    ∃ d : MacAddr, d.getLsbD 0 = false ∧ d ≠ m ∧
      destination (before ++ port :: after) v d = some before.length := by
  have hother {k : ℕ × Option MacAddr} (hk : k ≠ (v, none)) : hasKey k port = false := by
    rw [← Bool.not_eq_true]
    exact fun hkey => hk (h k hkey)
  have hlast : lastWith (before ++ port :: after) (v, none) = some before.length := by
    rw [destination, Option.or_eq_some_iff, Option.or_eq_some_iff] at hdest
    rcases hdest with hdest | ⟨-, hdest | ⟨hnone, hdest⟩⟩
    · exact absurd hdest (lastWith_ne (hother (by simp)))
    · exact hdest
    by_cases hv : (vlanUntaggedVid, (none : Option MacAddr)) = (v, none)
    · rw [hv, hnone] at hdest
      cases hdest
    · exact absurd hdest (lastWith_ne (hother hv))
  obtain ⟨d, hd, hne, hfree⟩ := exists_free_address _ hlen v m
  refine ⟨d, hd, hne, ?_⟩
  rw [destination, lastWith_eq_none hfree, hlast]
  rfl

/-! ## Frames -/

/-- The VLAN id of an entry; one for untagged frames is entered under an id of its own. -/
def entryVid : Option ℕ → ℕ
  | some v => v
  | none => vlanUntaggedVid

/-- The VLAN id that a frame carries. -/
def vlanOf (f : Frame) : Option ℕ := if f.tagged then some (getVid f) else none

theorem getVid_eq_entryVid (f : Frame) : getVid f = entryVid (vlanOf f) := by
  unfold vlanOf
  split
  · rfl
  · rename_i h
    rw [getVid, if_neg h]
    rfl

/-- A frame with a VLAN id, or an untagged one. -/
def frameTo (d : MacAddr) : Option ℕ → Frame
  | some v => ⟨d, 0, etherTypeVlan, be16 (BitVec.ofNat 16 v)⟩
  | none => ⟨d, 0, 0x0800#16, []⟩

theorem dAddr_frameTo (d : MacAddr) (o : Option ℕ) : (frameTo d o).dAddr = d := by
  cases o <;> rfl

theorem vlanOf_frameTo (d : MacAddr) (ho : entryVid o ≤ 4095) : vlanOf (frameTo d o) = o := by
  cases o with
  | none => rfl
  | some v =>
    have hv : v ≤ 4095 := ho
    have htci : ((be16 (BitVec.ofNat 16 v)).getD 0 0 ++ (be16 (BitVec.ofNat 16 v)).getD 1 0 :
        BitVec 16) = BitVec.ofNat 16 v := Frame.append_be16 _
    have htag : (frameTo d (some v)).tagged = true := rfl
    have hpay : (frameTo d (some v)).payload = be16 (BitVec.ofNat 16 v) := rfl
    rw [vlanOf, if_pos htag, getVid, if_pos htag, hpay, htci, BitVec.toNat_ofNat]
    congr 1
    omega

theorem getVid_frameTo (d : MacAddr) (ho : entryVid o ≤ 4095) :
    getVid (frameTo d o) = entryVid o := by
  rw [getVid_eq_entryVid, vlanOf_frameTo d ho]

theorem multicast_frameTo (hd : d.getLsbD 0 = false) (o : Option ℕ) :
    (frameTo d o).multicast = false := by
  rwa [Frame.multicast, dAddr_frameTo]

theorem portIdx_injective : Function.Injective PortRef.portIdx := by
  intro r r' h
  cases r <;> cases r' <;> simp [PortRef.portIdx] at h ⊢ <;> omega

/-- One port of the array is named. -/
theorem names_eq_iff {before after : List PortRef}
    (hnodup : (before ++ r :: after).Nodup) (o : Option ℕ)
    (hlt : ∀ i, o = some i → i < (before ++ r :: after).length) :
    (portsAt (before ++ r :: after) o.toList).map PortRef.portIdx = [r.portIdx] ↔
      o = some before.length := by
  cases o with
  | none => simp [portsAt]
  | some i =>
    have hi := hlt i rfl
    simp only [portsAt, Option.toList_some, List.filterMap_cons, List.getElem?_eq_getElem hi,
      List.filterMap_nil, List.map_cons, List.map_nil, List.cons.injEq, and_true,
      portIdx_injective.eq_iff, Option.some.injEq]
    have hself : (before ++ r :: after)[before.length] = r := by simp
    constructor
    · intro heq
      exact (List.Nodup.getElem_inj_iff hnodup).mp (heq.trans hself.symm)
    · rintro rfl
      exact hself

/-! ## Two tables -/

/-- The new entry is local in the eyes of `get_vid`: unicast frames with its VLAN id and address go
to the port, and all others go where they went. -/
structure Local (cmp cmp' : ClsCompInfo) (r : PortRef) (v : ℕ) (m : MacAddr) : Prop where
  there : ∀ f : Frame, f.multicast = false → getVid f = v → f.dAddr = m →
    queuedPorts cmp' f = [r.portIdx]
  others : ∀ f : Frame, f.multicast = false → ¬(getVid f = v ∧ f.dAddr = m) →
    queuedPorts cmp' f = queuedPorts cmp f

/-- **The new entry is local**: unicast frames that carry its VLAN id, or are untagged as it is, and
that have its address go to the port, and all others go where they went. -/
structure EntryLocal (cmp cmp' : ClsCompInfo) (r : PortRef) (v : Option ℕ) (m : MacAddr) :
    Prop where
  there : ∀ f : Frame, f.multicast = false → vlanOf f = v → f.dAddr = m →
    queuedPorts cmp' f = [r.portIdx]
  others : ∀ f : Frame, f.multicast = false → ¬(vlanOf f = v ∧ f.dAddr = m) →
    queuedPorts cmp' f = queuedPorts cmp f

/-- The address has a meaning of its own, and no later port has it with the VLAN id. -/
def Distinguished (iface : PortRef → PortInfo) (refs : List PortRef) (r : PortRef) (v : ℕ)
    (m : MacAddr) : Prop :=
  m ≠ 0 ∧ m ≠ clsDummyAddr.setWidth 48 ∧
    ∀ r' ∈ refs.drop (refs.idxOf r + 1), hasKey (v, some m) (iface r') = false

/-- The key of a port that is entered as the default. -/
theorem portKey_of_dummy (hv : v ≤ 4095) (hvid : port.clsAttrs.vlantag.vid = v)
    (hmac : port.clsAttrs.macAddr = (clsDummyAddr.setWidth 48 : MacAddr).setWidth 64) :
    portKey port = (v, none) := by
  have hdummy : (clsDummyAddr.setWidth 48 : MacAddr).setWidth 64 = clsDummyAddr := by decide
  rw [portKey, hvid, hmac, hdummy, clsKey, if_pos rfl]
  congr 1
  omega

/-- The key of a port that is entered for an address. -/
theorem hasKey_of_address (hv : v ≤ 4095)
    (hvid : port.clsAttrs.vlantag.vid = v) (hmac : port.clsAttrs.macAddr = m.setWidth 64)
    (hzero : m ≠ 0) (hdummy : m ≠ clsDummyAddr.setWidth 48) :
    hasKey k port = true ↔ k = (v, some m) := by
  have hback : (m.setWidth 64).setWidth 48 = m := by
    rw [BitVec.setWidth_setWidth_of_le _ (by decide), BitVec.setWidth_eq]
  have hne : m.setWidth 64 ≠ (0 : BitVec 64) := fun h0 => hzero (by rw [← hback, h0]; rfl)
  have hnot : m.setWidth 64 ≠ clsDummyAddr := fun hd => hdummy (by rw [← hback, hd])
  have hvlan : ((v : ℤ) % 2 ^ 16).toNat = v := by omega
  rw [hasKey, decide_eq_true_eq, portKey, hvid, hmac, clsKey, if_neg hnot, hback, hvlan,
    and_iff_right hne]
  exact eq_comm

section Local

variable {iface : PortRef → PortInfo} {before after : List PortRef} {r : PortRef}
  {cmp cmp' : ClsCompInfo} {port : PortInfo} {m : MacAddr}

theorem drop_idxOf (hnodup : (before ++ r :: after).Nodup) :
    (before ++ r :: after).drop ((before ++ r :: after).idxOf r + 1) = after := by
  have hnot : r ∉ before := fun hin =>
    (List.nodup_append.mp hnodup).2.2 r hin r List.mem_cons_self rfl
  rw [List.idxOf_append_of_notMem hnot, List.idxOf_cons_self, Nat.add_zero,
    ← List.append_cons before r after |>.symm]
  exact List.drop_left' (by simp)

theorem map_update (hnodup : (before ++ r :: after).Nodup) :
    (before ++ r :: after).map (update iface r port) =
      before.map iface ++ port :: after.map iface := by
  obtain ⟨-, hafter, hbefore⟩ := List.nodup_append.mp hnodup
  have hnot : r ∉ before := fun hin => hbefore r hin r List.mem_cons_self rfl
  have hkeep {l : List PortRef} (hl : r ∉ l) :
      l.map (update iface r port) = l.map iface :=
    List.map_congr_left fun r' hr' => update_of_ne (ne_of_mem_of_not_mem hr' hl) _ _
  rw [List.map_append, List.map_cons, update_self, hkeep hnot,
    hkeep (List.nodup_cons.mp hafter).1]

variable (hnodup : (before ++ r :: after).Nodup) (h : TableOf iface (before ++ r :: after) cmp)
  (h' : TableOf (Function.update iface r port) (before ++ r :: after) cmp')

include hnodup

/-- A unicast frame goes to the port. -/
theorem queuedPorts_eq_iff {iface : PortRef → PortInfo} {cmp : ClsCompInfo}
    (h : TableOf iface (before ++ r :: after) cmp) {f : Frame} (hf : f.multicast = false) :
    queuedPorts cmp f = [r.portIdx] ↔
      destination ((before ++ r :: after).map iface) (getVid f) f.dAddr = some before.length := by
  rw [h.queuedPorts_eq, targets_unicast hf]
  refine names_eq_iff hnodup _ fun i hi => ?_
  have hmem : i ∈ targets ((before ++ r :: after).map iface) (getVid f) f.dAddr := by
    rw [targets_unicast hf, hi]
    exact List.mem_singleton_self i
  have hlt := lt_of_mem_targets hmem
  rwa [List.length_map] at hlt

include h h'

/-- **One new entry.** -/
theorem local_iff (hold : (iface r).clsAttrs.macAddr = 0) (hv : v ≤ 4095)
    (hvid : port.clsAttrs.vlantag.vid = v) (hmac : port.clsAttrs.macAddr = m.setWidth 64)
    (hm : m.getLsbD 0 = false) (hlen : (before ++ r :: after).length < 2 ^ 15) :
    Local cmp cmp' r v m ↔ Distinguished iface (before ++ r :: after) r v m := by
  have hnone (k : ℕ × Option MacAddr) : hasKey k (iface r) = false := by
    rw [hasKey, decide_eq_false_iff_not]
    exact fun hk => hk.1 hold
  have htx : (before ++ r :: after).map iface = before.map iface ++ iface r :: after.map iface := by
    rw [List.map_append, List.map_cons]
  have htx' : (before ++ r :: after).map (update iface r port) =
      before.map iface ++ port :: after.map iface := map_update hnodup
  have hdest {f : Frame} (hf : f.multicast = false) := queuedPorts_eq_iff hnodup h hf
  have hdest' {f : Frame} (hf : f.multicast = false) := queuedPorts_eq_iff hnodup h' hf
  have hlength : (before.map iface).length = before.length := List.length_map _
  rw [htx, ← hlength] at hdest
  rw [htx', ← hlength] at hdest'
  have hafter : (∀ port' ∈ after.map iface, hasKey (v, some m) port' = false) ↔
      ∀ r' ∈ after, hasKey (v, some m) (iface r') = false := List.forall_mem_map
  rw [Distinguished, drop_idxOf hnodup, ← hafter]
  constructor
  · intro hlocal
    have hframe {d : MacAddr} (hd : d.getLsbD 0 = false) := multicast_frameTo hd (some v)
    have hvlan (d : MacAddr) : getVid (frameTo d (some v)) = v := getVid_frameTo d hv
    have hthere := (hdest' (hframe hm)).mp
      (hlocal.there _ (hframe hm) (hvlan m) (dAddr_frameTo m (some v)))
    rw [hvlan, dAddr_frameTo] at hthere
    have hzero : m ≠ 0 := by
      rintro rfl
      refine destination_ne (fun k => ?_) hthere
      rw [hasKey, decide_eq_false_iff_not]
      exact fun hk => hk.1 hmac
    have hdummy : m ≠ clsDummyAddr.setWidth 48 := by
      rintro rfl
      -- the port has become the default of the VLAN id
      have hports : (before.map iface ++ port :: after.map iface).length < 2 ^ 15 := by
        rwa [← htx', List.length_map]
      have hone (k : ℕ × Option MacAddr) (hk : hasKey k port = true) : k = (v, none) := by
        rw [hasKey, decide_eq_true_eq, portKey_of_dummy hv hvid hmac] at hk
        exact hk.2.symm
      obtain ⟨d, hd, hne, hmoved⟩ := exists_destination_eq hports hone hthere
      have hsame := hlocal.others (frameTo d (some v)) (hframe hd)
        fun hboth => hne ((dAddr_frameTo d (some v)).symm.trans hboth.2)
      have hgoes := hdest' (hframe hd)
      have hwent := hdest (hframe hd)
      rw [hvlan, dAddr_frameTo] at hgoes hwent
      exact destination_ne hnone (hwent.mp (hsame.symm.trans (hgoes.mpr hmoved)))
    have hkey : hasKey (v, some m) port = true :=
      (hasKey_of_address hv hvid hmac hzero hdummy).mpr rfl
    exact ⟨hzero, hdummy, (destination_eq_iff hkey).mp hthere⟩
  · rintro ⟨hzero, hdummy, hlast⟩
    have hkey {k : ℕ × Option MacAddr} := hasKey_of_address (k := k) hv hvid hmac hzero hdummy
    refine ⟨fun f hf hvlan haddr => (hdest' hf).mpr ?_, fun f hf hother => ?_⟩
    · rw [hvlan, haddr]
      exact (destination_eq_iff (hkey.mpr rfl)).mpr hlast
    rw [h'.queuedPorts_eq, h.queuedPorts_eq, targets_unicast hf, targets_unicast hf, htx', htx,
      destination_congr hnone]
    · intro o ho
      obtain ⟨hvlan, rfl⟩ := Prod.mk.inj (hkey.mp ho)
      exact ⟨Option.some_ne_none m, fun haddr => hother ⟨hvlan, (Option.some.inj haddr).symm⟩⟩
    · rw [← Bool.not_eq_true, hkey]
      exact fun heq => Option.some_ne_none m (congrArg Prod.snd heq).symm

/-- Untagged frames and those that carry the id of untagged entries are not told apart. -/
theorem entryLocal_iff_local (hold : (iface r).clsAttrs.macAddr = 0) (hm : m.getLsbD 0 = false)
    {o : Option ℕ} (ho : entryVid o ≤ 4095) :
    EntryLocal cmp cmp' r o m ↔
      entryVid o ≠ vlanUntaggedVid ∧ Local cmp cmp' r (entryVid o) m := by
  have hvlan (hne : entryVid o ≠ vlanUntaggedVid) (f : Frame) :
      getVid f = entryVid o ↔ vlanOf f = o := by
    rw [getVid_eq_entryVid]
    refine ⟨fun heq => ?_, fun heq => by rw [heq]⟩
    cases hf : vlanOf f with
    | none =>
      rw [hf] at heq
      exact absurd heq.symm hne
    | some n =>
      rw [hf] at heq
      cases o with
      | none => exact absurd rfl hne
      | some n' => exact congrArg some heq
  constructor
  · intro hlocal
    have hne : entryVid o ≠ vlanUntaggedVid := by
      intro heq
      -- a frame of the other kind has the same fate
      obtain ⟨o', hne', ho'⟩ : ∃ o', o' ≠ o ∧ entryVid o' = vlanUntaggedVid := by
        cases o with
        | none => exact ⟨some vlanUntaggedVid, by simp, rfl⟩
        | some n => exact ⟨none, by simp, rfl⟩
      have hle' : entryVid o' ≤ 4095 := ho'.trans_le (Nat.le_refl 4095)
      have hthere := hlocal.there _ (multicast_frameTo hm o) (vlanOf_frameTo m ho)
        (dAddr_frameTo m o)
      have hother := hlocal.others (frameTo m o') (multicast_frameTo hm o') fun hboth =>
        hne' ((vlanOf_frameTo m hle').symm.trans hboth.1)
      have hsame : queuedPorts cmp' (frameTo m o') = queuedPorts cmp' (frameTo m o) := by
        rw [h'.queuedPorts_eq, h'.queuedPorts_eq, getVid_frameTo m ho, getVid_frameTo m hle', ho',
          heq, dAddr_frameTo, dAddr_frameTo]
      have hdest := (queuedPorts_eq_iff hnodup h (multicast_frameTo hm o')).mp
        (hother.symm.trans (hsame.trans hthere))
      have hlength : (before.map iface).length = before.length := List.length_map _
      rw [List.map_append, List.map_cons, ← hlength] at hdest
      refine destination_ne (fun k => ?_) hdest
      rw [hasKey, decide_eq_false_iff_not]
      exact fun hk => hk.1 hold
    refine ⟨hne, fun f hf hv => hlocal.there f hf ((hvlan hne f).mp hv), fun f hf hv => ?_⟩
    rw [hvlan hne] at hv
    exact hlocal.others f hf hv
  · rintro ⟨hne, hlocal⟩
    refine ⟨fun f hf hv => hlocal.there f hf ((hvlan hne f).mpr hv), fun f hf hv => ?_⟩
    rw [← hvlan hne] at hv
    exact hlocal.others f hf hv

end Local

/-! ## The requests -/

/-- The address that a text of the form `xx:xx:xx:xx:xx:xx` stands for. -/
def macAddrOf (mac : CString) : MacAddr := BitVec.ofNat 48 (bytesVal (CString.tokens ':' mac))

/-- The request `classifier_table add|del mac MAC UID` or `classifier_table add|del vlan VID MAC
UID`, with an address of the form `xx:xx:xx:xx:xx:xx`, for a port that the UID names. -/
def EntryRequest (P : Platform) (act : Action) (v : Option ℕ) (mac : CString) (r : PortRef)
    (req : CString) : Prop :=
  IsMac mac ∧ ∃ word uid idx, (word, act) ∈ portActions ∧ NamesPort P uid idx ∧
    getSppwkPort P idx.ifaceType idx.ifaceNo idx.queueNo = .ok (some r) ∧
    ((v = none ∧ CString.tokens ' ' req =
        ["classifier_table".toList, word, "mac".toList, mac, uid]) ∨
      ∃ vid n, v = some n ∧ CString.value 0 vid = some ((n : ℤ), []) ∧ n ≤ 4095 ∧
        CString.tokens ' ' req =
          ["classifier_table".toList, word, "vlan".toList, vid, mac, uid])

/-- The request is accepted and carried out. -/
def Succeeds (P : Platform) (s : State) (e : Request) (s' : State) : Prop :=
  ∃ cmd, parseWkCmd P s.mng e.str = .ok (.ok cmd) ∧ execOneCmd P e.env s cmd = .ok (.ok, s')

theorem IsMac.macAddrOf_setWidth (h : IsMac mac) :
    sppwkConvertMacStrToInt64 mac = .ok ((macAddrOf mac).setWidth 64) := by
  obtain ⟨hlt, heq⟩ := h.convert_eq
  rw [heq]
  congr 1
  apply BitVec.eq_of_toNat_eq
  rw [macAddrOf, BitVec.toNat_setWidth, BitVec.toNat_ofNat, BitVec.toNat_ofNat]
  omega

/-- An address stored in 64 bits is not negative. -/
theorem msb_setWidth (m : MacAddr) : (m.setWidth 64).msb = false := by
  rw [BitVec.msb_eq_false_iff_two_mul_lt, BitVec.toNat_setWidth]
  have := m.isLt
  omega

variable {v : Option ℕ} {act : Action}

theorem entryVid_le (h : EntryRequest P act v mac r req) : entryVid v ≤ 4095 := by
  obtain ⟨-, word, uid, idx, -, -, -, ⟨rfl, -⟩ | ⟨vid, n, rfl, -, hn, -⟩⟩ := h
  · exact Nat.le_refl _
  · exact hn

/-- What the last parameter makes of the attributes. -/
theorem parseClsPort_eq_some (hP : P.FitsInt) {m : MngData} {a' : ClsCmdAttrs} {uid : CString}
    {idx : PortIdx} (huid : NamesPort P uid idx) (h : parseClsPort P m a uid = .ok (some a')) :
    a' = { (if a.clsType = .mac then { a with vid := ethVlanIdMax } else a) with port := idx } := by
  obtain ⟨o, ho, h⟩ := bind_eq_ok.mp h
  rw [parseResourceUid_eq, huid.uidOutcome hP] at ho
  obtain rfl := Except.ok.inj ho
  obtain ⟨o, -, h⟩ := bind_eq_ok.mp h
  cases o with
  | none => cases h
  | some r =>
    simp only at h
    split at h
    · cases h
    obtain ⟨fits, -, h⟩ := bind_eq_ok.mp h
    split at h
    · exact (Option.some.inj (Except.ok.inj h)).symm
    · cases h

/-- The same, after the last parameter. -/
theorem parseParams_clsPort (hP : P.FitsInt) {m : MngData} {uid : CString} {idx : PortIdx}
    (huid : NamesPort P uid idx) {mk : ClsCmdAttrs → CmdAttrs} {cmd : CmdAttrs}
    (h : (parseParams [("port".toList, parseClsPort P m)] [uid] a >>= fun r => .ok (r.map mk)) =
      .ok (.ok cmd)) :
    cmd = mk { (if a.clsType = .mac then { a with vid := ethVlanIdMax } else a) with
      port := idx } := by
  obtain ⟨res, hres, h⟩ := bind_eq_ok.mp h
  obtain ⟨a₁, rfl, hcmd⟩ := map_eq_ok (Except.ok.inj h)
  obtain ⟨a₂, hlast, hnil⟩ := parseParams_cons_eq_ok hres
  obtain rfl := parseParams_nil_eq_ok hnil
  rw [← parseClsPort_eq_some hP huid hlast, hcmd]

/-- What `parse_wk_cmd` makes of a request that it accepts. -/
theorem EntryRequest.parse (hP : P.FitsInt) {m : MngData}
    (h : EntryRequest P act v mac r req) {cmd : CmdAttrs}
    (hparse : parseWkCmd P m req = .ok (.ok cmd)) :
    ∃ a, (cmd = .clsMac a ∨ cmd = .clsVlan a) ∧ a.wkAction = act ∧ a.vid = entryVid v ∧
      a.mac = mac ∧
      getSppwkPort P a.port.ifaceType a.port.ifaceNo a.port.queueNo = .ok (some r) := by
  obtain ⟨hmac, word, uid, idx, hword, huid, hport, hform⟩ := h
  have h₁ := parseClsAction_of_word .zero hword
  have hof : MacOf mac mac := .inr ⟨hmac, rfl⟩
  unfold parseWkCmd at hparse
  split at hparse
  · cases hparse
  split at hparse
  · cases hparse
  rcases hform with ⟨rfl, htok⟩ | ⟨vid, n, rfl, hval, hn, htok⟩
  · have h₂ : parseClsType { ClsCmdAttrs.zero with wkAction := act } "mac" =
        .ok (some { ClsCmdAttrs.zero with wkAction := act, clsType := .mac }) := rfl
    rw [htok, parseTokens_clsMac, clsMacOps, parseParams_cons_of_ok h₁,
      parseParams_cons_of_ok h₂, parseParams_cons_of_ok (hof.parseMacAddr _)] at hparse
    exact ⟨_, .inl (parseParams_clsPort hP huid hparse), rfl, rfl, rfl, hport⟩
  have h₂ : parseClsType { ClsCmdAttrs.zero with wkAction := act } "vlan" =
      .ok (some { ClsCmdAttrs.zero with wkAction := act, clsType := .vlan }) := rfl
  have hmax : (n : ℤ) ≤ ethVlanIdMax := by
    have h4095 : ethVlanIdMax = 4095 := rfl
    omega
  have h₃ : parseClsVid { ClsCmdAttrs.zero with wkAction := act, clsType := .vlan } vid =
      .ok (some { ClsCmdAttrs.zero with wkAction := act, clsType := .vlan, vid := n }) := by
    rw [parseClsVid, getIntInRange_of_value hval (by omega) hmax (by decide) (by decide)]
    rfl
  rw [htok, parseTokens_clsVlan, clsVlanOps, parseParams_cons_of_ok h₁,
    parseParams_cons_of_ok h₂, parseParams_cons_of_ok h₃,
    parseParams_cons_of_ok (hof.parseMacAddr _)] at hparse
  exact ⟨_, .inr (parseParams_clsPort hP huid hparse), rfl, rfl, rfl, hport⟩

/-- What the management data have become. -/
structure Entered (s s' : State) (r : PortRef) (attrs : ClsAttrs) : Prop where
  comp : s'.mng.comp = s.mng.comp
  self : (s'.mng.iface r).clsAttrs = attrs
  other : ∀ r' ≠ r, (s'.mng.iface r').clsAttrs = (s.mng.iface r').clsAttrs

/-- **A request that succeeds** is a step that keeps the tables in order, and it writes the entry
of its port. -/
theorem EntryRequest.step (hP : P.FitsInt) (hvf : P.module = .vf) {s s' : State}
    (h : EntryRequest P act v mac r e.str) (hs : Succeeds P s e s') :
    SyncGuard P s e ∧ handleRequest P s e = some s' ∧
      ∃ (a : ClsCmdAttrs) (attrs : ClsAttrs), a.wkAction = act ∧ a.vid = entryVid v ∧
        updateClsAttrs a ((macAddrOf mac).setWidth 64) (s.mng.iface r).clsAttrs = some attrs ∧
        Entered s s' r attrs := by
  obtain ⟨cmd, hparse, hexec⟩ := hs
  obtain ⟨a, hcmd, hact, hvid, hmac, hport⟩ := h.parse hP hparse
  refine ⟨⟨fun p id r' hp => ?_, fun cmd' r' hp hr' => ?_⟩, ?_, a, ?_⟩
  · have heq := Except.ok.inj (Except.ok.inj (hparse.symm.trans hp))
    rcases hcmd with rfl | rfl <;> cases heq
  · obtain rfl := Except.ok.inj (Except.ok.inj (hparse.symm.trans hp))
    rw [hexec] at hr'
    obtain rfl := Except.ok.inj hr'
    rfl
  · unfold handleRequest
    rw [hparse]
    simp only [hexec]
  have hhand : handled P.module cmd = true := by
    rw [hvf]
    rcases hcmd with rfl | rfl <;> rfl
  unfold execOneCmd at hexec
  rw [if_pos hhand] at hexec
  obtain ⟨⟨ret, s₁⟩, hchange, hflush⟩ := bind_eq_ok.mp hexec
  rcases changeMng_cases (accepted_of_parse hparse) hhand hchange with
    ⟨rfl, rfl, -⟩ | ⟨rfl, m₁, rfl, hc⟩
  · cases hflush
  have hf : FlushEffect P e.env.pmd m₁ s'.mng := flushCmd_effect hflush
  have hkeep (r' : PortRef) : (s'.mng.iface r').clsAttrs = (m₁.iface r').clsAttrs := by
    rw [hf.iface r']
  cases hc with
  | @entry _ a₁ mac₁ r₁ attrs _ hcmd₁ hmac₁ hport₁ _ hattrs hflag =>
    obtain rfl : a₁ = a := by
      rcases hcmd with rfl | rfl <;> rcases hcmd₁ with heq | heq <;> cases heq <;> rfl
    obtain rfl : r₁ = r := Option.some.inj (Except.ok.inj (hport₁.symm.trans hport))
    obtain ⟨change, rfl⟩ := setComponentChangePort_eq_ok hflag
    rw [hmac, IsMac.macAddrOf_setWidth h.1] at hmac₁
    obtain rfl := Except.ok.inj hmac₁
    refine ⟨attrs, hact, hvid, hattrs, hf.comp, ?_, fun r' hne => ?_⟩
    · rw [hkeep]
      show (update s.mng.iface r₁
        { s.mng.iface r₁ with clsAttrs := attrs } r₁).clsAttrs = attrs
      rw [update_self]
    · rw [hkeep]
      exact congrArg PortInfo.clsAttrs (update_of_ne hne _ _)
  | start | stop | absent | listed | retag | attach | detach =>
    rcases hcmd with heq | heq <;> cases heq

/-- The port had no entry, and it has the one of the request. -/
theorem updateClsAttrs_add (ha : a.wkAction = .add) {mac : BitVec 64}
    {attrs attrs' : ClsAttrs} (h : updateClsAttrs a mac attrs = some attrs') :
    attrs.vlantag.vid = ethVlanIdMax ∧ attrs.macAddr = 0 ∧ attrs'.vlantag.vid = a.vid ∧
      attrs'.macAddr = mac := by
  unfold updateClsAttrs at h
  rw [ha] at h
  simp only at h
  split at h
  · cases h
  split at h
  · cases h
  · rename_i hvid hmac
    obtain rfl := Option.some.inj h
    exact ⟨not_not.mp hvid, not_not.mp hmac, rfl, rfl⟩

/-- The port has no entry any more. -/
theorem updateClsAttrs_del (ha : a.wkAction = .del) {mac : BitVec 64}
    {attrs attrs' : ClsAttrs} (h : updateClsAttrs a mac attrs = some attrs') :
    attrs'.vlantag.vid = ethVlanIdMax ∧ attrs'.macAddr = 0 := by
  unfold updateClsAttrs at h
  rw [ha] at h
  simp only at h
  split at h
  · cases h
  split at h
  · cases h
  · obtain rfl := Option.some.inj h
    exact ⟨rfl, rfl⟩

/-! ## The deletion -/

/-- The state without the entry of a port. -/
def withoutEntry (s : State) (r : PortRef) : State :=
  { s with mng := s.mng.setClsAttrs r (s.mng.iface r).clsAttrs.cleared }

/-- The port has the entry. -/
def HasEntry (port : PortInfo) (v : Option ℕ) (m : MacAddr) : Prop :=
  port.clsAttrs.vlantag.vid = entryVid v ∧ port.clsAttrs.macAddr = m.setWidth 64

/-- **The deletion of an entry that is there is accepted.** -/
theorem EntryRequest.accepted_del (hP : P.FitsInt) {m : MngData}
    (h : EntryRequest P .del v mac r req) (hlen : req.length < sppwkMaxParams * sppwkValBufsz)
    (htype : (m.iface r).ifaceType ≠ .undef) (hentry : HasEntry (m.iface r) v (macAddrOf mac)) :
    ∃ cmd, parseWkCmd P m req = .ok (.ok cmd) := by
  obtain ⟨hmac, word, uid, idx, hword, huid, hport, hform⟩ := h
  have hof : MacOf mac mac := .inr ⟨hmac, rfl⟩
  have hcheck (t : ClsType) : checkClsPort m ⟨.del, t, entryVid v, mac, idx⟩ r = .ok true := by
    simp only [checkClsPort, IsMac.macAddrOf_setWidth hmac, bind, Except.bind,
      msb_setWidth (macAddrOf mac), Bool.false_eq_true, if_false]
    exact congrArg Except.ok (decide_eq_true ⟨hentry.2.symm, hentry.1.symm⟩)
  have hdoc (t : ClsType) : DocumentedEntry P m word uid ⟨.del, t, entryVid v, mac, idx⟩ :=
    ⟨hword, huid, r, hport, if_neg htype, hcheck t⟩
  rcases hform with ⟨rfl, htok⟩ | ⟨vid, n, rfl, hval, hn, htok⟩
  · exact ⟨.clsMac _, parseWkCmd_of_documented hP hlen
      ⟨_, htok, word, mac, uid, rfl, rfl, rfl, hof, hdoc .mac⟩⟩
  · have hmax : (n : ℤ) ≤ ethVlanIdMax := by
      have h4095 : ethVlanIdMax = 4095 := rfl
      omega
    exact ⟨.clsVlan _, parseWkCmd_of_documented hP hlen
      ⟨_, htok, word, vid, mac, uid, rfl, rfl, hval, ⟨Int.natCast_nonneg n, hmax⟩, hof, hdoc .vlan⟩⟩

/-- What is left of the deletion is a flush. -/
theorem EntryRequest.execOneCmd_del (hP : P.FitsInt) (hvf : P.module = .vf) {s : State}
    (h : EntryRequest P .del v mac r req) (hplaced : Vf.Placed P s.mng) {id : ℕ}
    (hid : id < P.maxLcore) (hr : r ∈ (s.mng.comp id).ports .tx)
    (htype : (s.mng.iface r).ifaceType ≠ .undef)
    (hentry : HasEntry (s.mng.iface r) v (macAddrOf mac)) {cmd : CmdAttrs}
    (hparse : parseWkCmd P s.mng req = .ok (.ok cmd)) (E : Env) :
    execOneCmd P E s cmd = flushCmd P E { withoutEntry s r with
      mng := { (withoutEntry s r).mng with
        changeComp := update (withoutEntry s r).mng.changeComp id true } } := by
  obtain ⟨a, hcmd, hact, hvid, hmac, hport⟩ := h.parse hP hparse
  have hconv : sppwkConvertMacStrToInt64 a.mac = .ok ((macAddrOf mac).setWidth 64) := by
    rw [hmac]
    exact IsMac.macAddrOf_setWidth h.1
  have hne : (macAddrOf mac).setWidth 64 ≠ -1#64 := fun heq =>
    absurd (msb_setWidth (macAddrOf mac)) (by rw [heq]; decide)
  have hattrs : updateClsAttrs a ((macAddrOf mac).setWidth 64) (s.mng.iface r).clsAttrs =
      some (s.mng.iface r).clsAttrs.cleared := by
    unfold updateClsAttrs
    rw [hact, hentry.1, hentry.2, hvid]
    simp
  have htable : updateClsTable P s.mng a = .ok (.ok, { (withoutEntry s r).mng with
      changeComp := update s.mng.changeComp id true }) := by
    unfold updateClsTable
    simp only [hconv, bind, Except.bind, if_neg hne, hport, if_neg htype, hattrs,
      hplaced.setComponentChangePort_eq hport hid hr]
    rfl
  have hhand : handled P.module cmd = true := by
    rw [hvf]
    rcases hcmd with rfl | rfl <;> rfl
  rw [execOneCmd, if_pos hhand]
  rcases hcmd with rfl | rfl <;> rw [changeMng, htable] <;> rfl

/-- **The deletion of an entry that is there succeeds** exactly if its flush does. -/
theorem EntryRequest.succeeds_del_iff (hP : P.FitsInt) (hvf : P.module = .vf) {s : State}
    (h : EntryRequest P .del v mac r e.str)
    (hlen : e.str.length < sppwkMaxParams * sppwkValBufsz) (hplaced : Vf.Placed P s.mng) {id : ℕ}
    (hid : id < P.maxLcore) (hr : r ∈ (s.mng.comp id).ports .tx)
    (hentry : HasEntry (s.mng.iface r) v (macAddrOf mac)) :
    (∃ s', Succeeds P s e s') ↔ FlushSucceeds P e.env (withoutEntry s r) id := by
  have htype : (s.mng.iface r).ifaceType ≠ .undef := by
    rw [hplaced.typed id .tx (.inr rfl) r hr]
    cases r <;> nofun
  obtain ⟨cmd, hparse⟩ := h.accepted_del hP hlen htype hentry
  have hexec := h.execOneCmd_del hP hvf hplaced hid hr htype hentry hparse e.env
  constructor
  · rintro ⟨s', cmd', hparse', hexec'⟩
    obtain rfl := Except.ok.inj (Except.ok.inj (hparse.symm.trans hparse'))
    exact ⟨s', hexec ▸ hexec'⟩
  · rintro ⟨s', hflush⟩
    exact ⟨s', cmd, hparse, hexec.trans hflush⟩

/-! ## The entry and its deletion -/

/-- **An entry is local** where it is for a VLAN id other than that of untagged frames, its address
has a meaning of its own, and no later port has the VLAN id and the address.  Its deletion is
accepted, succeeds if its flush does, and undoes the entry in any case.  The ports in question are
those that the worker thread queues a frame on. -/
theorem entryLocal_iff (P : Platform) (hP : P.FitsInt) (hvf : P.module = .vf)
    {h : List (State × Request)} {s s' : State} (hrun : Run (workerSystem P) h s)
    (hG : Guarded (SyncGuard P) h) {id : ℕ} (hid : id < P.maxLcore)
    (hcls : (s.mng.comp id).wkType = .cls) {r : PortRef} (hr : r ∈ (s.mng.comp id).ports .tx)
    {v : Option ℕ} {mac : CString} (huni : (macAddrOf mac).getLsbD 0 = false) {e e' : Request}
    (hadd : EntryRequest P .add v mac r e.str) (hs : Succeeds P s e s')
    (hdel : EntryRequest P .del v mac r e'.str)
    (hlen' : e'.str.length < sppwkMaxParams * sppwkValBufsz) :
    (Queues (s.cls id).ref ∧ Queues (s'.cls id).ref) ∧
      (EntryLocal (s.cls id).ref (s'.cls id).ref r v (macAddrOf mac) ↔
        entryVid v ≠ vlanUntaggedVid ∧
          Distinguished s.mng.iface ((s.mng.comp id).ports .tx) r (entryVid v) (macAddrOf mac)) ∧
      ((∃ s'', Succeeds P s' e' s'') ↔ FlushSucceeds P e'.env (withoutEntry s' r) id) ∧
      ∀ s'', Succeeds P s' e' s'' → Queues (s''.cls id).ref ∧
        ∀ f, queuedPorts (s''.cls id).ref f = queuedPorts (s.cls id).ref f := by
  obtain ⟨hg, hstep, a, attrs, ha, hvid, hattrs, hin⟩ := hadd.step hP hvf hs
  have hsync := synced_of_run hvf hrun hG
  have hsync' := hsync.step hvf hg hstep
  obtain ⟨hfree, hold, hnewvid, hnew⟩ := updateClsAttrs_add ha hattrs
  have htable := hsync.tables id hid hcls
  have hcls' : (s'.mng.comp id).wkType = .cls := by
    rw [hin.comp]
    exact hcls
  have hentry : HasEntry (s'.mng.iface r) v (macAddrOf mac) := by
    rw [HasEntry, hin.self, hnewvid, hvid, hnew]
    exact ⟨rfl, rfl⟩
  have hback (s'' : State) (hs' : Succeeds P s' e' s'') : Queues (s''.cls id).ref ∧
      ∀ f, queuedPorts (s''.cls id).ref f = queuedPorts (s.cls id).ref f := by
    obtain ⟨hg', hstep', a', attrs', ha', -, hattrs', hin'⟩ := hdel.step hP hvf hs'
    obtain ⟨hcleared, hgone⟩ := updateClsAttrs_del ha' hattrs'
    have hsync'' := hsync'.step hvf hg' hstep'
    have hcls'' : (s''.mng.comp id).wkType = .cls := by
      rw [hin'.comp]
      exact hcls'
    have htable'' := hsync''.tables id hid hcls''
    rw [hin'.comp, hin.comp] at htable''
    have hsame : TableOf s.mng.iface ((s.mng.comp id).ports .tx) (s''.cls id).ref := by
      refine htable''.congr fun r' _ => ?_
      rcases eq_or_ne r' r with rfl | hne
      · rw [hin'.self, hold, hgone, hfree, hcleared]
        exact ⟨rfl, rfl⟩
      · rw [hin'.other r' hne, hin.other r' hne]
        exact ⟨rfl, rfl⟩
    refine ⟨hsync''.queues hvf hid hcls'', fun f => ?_⟩
    rw [hsame.queuedPorts_eq, htable.queuedPorts_eq]
  refine ⟨⟨hsync.queues hvf hid hcls, hsync'.queues hvf hid hcls'⟩, ?_,
    hdel.succeeds_del_iff hP hvf hlen' hsync'.placed hid (hin.comp ▸ hr) hentry, hback⟩
  have htable' := hsync'.tables id hid hcls'
  rw [hin.comp] at htable'
  have hnodup := hsync.placed.owned.nodup id .tx (.inr rfl)
  have hlen : ((s.mng.comp id).ports .tx).length < 2 ^ 15 := by
    have hroom := hsync.placed.room id
    rw [maxPorts, hvf] at hroom
    exact hroom.trans_lt P.maxQueuesPerPort_lt
  have hupdate : TableOf (Function.update s.mng.iface r (s'.mng.iface r))
      ((s.mng.comp id).ports .tx) (s'.cls id).ref := by
    refine htable'.congr fun r' _ => ?_
    rcases eq_or_ne r' r with rfl | hne
    · rw [Function.update_self]
      exact ⟨rfl, rfl⟩
    · rw [Function.update_of_ne hne, hin.other r' hne]
      exact ⟨rfl, rfl⟩
  have hle : entryVid v ≤ 4095 := entryVid_le hadd
  obtain ⟨before, after, hrefs⟩ := List.append_of_mem hr
  rw [hrefs] at hnodup htable hupdate hlen ⊢
  rw [entryLocal_iff_local hnodup htable hupdate hold huni hle,
    local_iff hnodup htable hupdate hold hle hentry.1 hentry.2 huni hlen]

/-! ### Entries for rings -/

theorem exists_succeeds {s : State} (h : succeeds s e = true) :
    ∃ s', Succeeds (.sample .vf) s e s' ∧ handleRequest (.sample .vf) s e = some s' := by
  unfold succeeds at h
  split at h
  · rename_i cmd hparse
    split at h
    · rename_i s' hexec
      refine ⟨s', ⟨cmd, hparse, hexec⟩, ?_⟩
      unfold handleRequest
      rw [hparse]
      simp only [hexec]
    · cases h
  · cases h

/-- A run of requests that succeed, and one more such request. -/
theorem exists_step_of_test (setup : List Request) (e : Request) (Q : State → State → Bool)
    (h : (setup.foldlM (checked succeedsAlone (handleRequest (.sample .vf)))
      (startUp (.sample .vf))).any (fun s => succeeds s e ∧
        (handleRequest (.sample .vf) s e).any (Q s)) = true) :
    ∃ hist s s', Run (workerSystem (.sample .vf)) hist s ∧ hist.map Prod.snd = setup.reverse ∧
      Guarded (SyncGuard (.sample .vf)) hist ∧ Succeeds (.sample .vf) s e s' ∧ Q s s' = true := by
  obtain ⟨hist, s, hrun, hmap, hG, hok, hQ⟩ :=
    exists_guarded_run succeedsAlone SyncGuard.of_succeedsAlone _ _ setup _ h
  obtain ⟨s', hsucc, hstep⟩ := exists_succeeds hok
  rw [hstep, Option.any_some] at hQ
  exact ⟨hist, s, s', hrun, hmap, hG, hsucc, hQ⟩

/-- A classifier with two rings. -/
def ringClassifier : List Request :=
  [.plain "component start cls 2 classifier", .plain "port add ring:0 tx cls",
    .plain "port add ring:1 tx cls"]

/-- The request for an entry of a ring, for frames with the VLAN id 100. -/
def vlanEntry (act addr ring : String) : Request :=
  .plain ("classifier_table " ++ act ++ " vlan 100 " ++ addr ++ " ring:" ++ ring)

/-- The tokens of a request for the ring 0. -/
def RingTokens (word mac : CString) (v : Option ℕ) (req : CString) : Prop :=
  (v = none ∧ CString.tokens ' ' req =
      ["classifier_table".toList, word, "mac".toList, mac, "ring:0".toList]) ∨
    (v = some 100 ∧ CString.tokens ' ' req =
      ["classifier_table".toList, word, "vlan".toList, "100".toList, mac, "ring:0".toList])

theorem entryRequest_ring (word : CString) (hmac : IsMac mac)
    (hword : (word, act) ∈ portActions) (htok : RingTokens word mac v req) :
    EntryRequest (.sample .vf) act v mac (.ring 0) req := by
  refine ⟨hmac, word, "ring:0".toList, ⟨.ring, 0, 0⟩, hword,
    ⟨false, by decide +kernel, by decide, by decide, by decide⟩, by decide +kernel,
    htok.imp_right fun h => ⟨"100".toList, 100, h.1, by decide +kernel, by decide, h.2⟩⟩

/-- An entry for the VLAN id 100 and an address of a device is local. -/
theorem entryLocal_iff_device : ∃ s s' s'',
    Succeeds (.sample .vf) s (vlanEntry "add" "52:54:00:12:34:56" "0") s' ∧
      Succeeds (.sample .vf) s' (vlanEntry "del" "52:54:00:12:34:56" "0") s'' ∧
      EntryLocal (s.cls 0).ref (s'.cls 0).ref (.ring 0) (some 100)
        (macAddrOf "52:54:00:12:34:56") ∧
      ∀ f, queuedPorts (s''.cls 0).ref f = queuedPorts (s.cls 0).ref f := by
  obtain ⟨hist, s, s', hrun, -, hG, hs, hQ⟩ := exists_step_of_test ringClassifier
    (vlanEntry "add" "52:54:00:12:34:56" "0")
    (fun s s' => decide ((s.mng.comp 0).wkType = .cls ∧
      (s.mng.comp 0).ports .tx = [.ring 0, .ring 1] ∧
      (s.mng.iface (.ring 1)).clsAttrs.macAddr = 0 ∧
      succeeds s' (vlanEntry "del" "52:54:00:12:34:56" "0") = true)) (by decide +kernel)
  obtain ⟨hcls, hports, hfree, hok⟩ := of_decide_eq_true hQ
  obtain ⟨s'', hs', -⟩ := exists_succeeds hok
  have hadd : EntryRequest (.sample .vf) .add (some 100) "52:54:00:12:34:56" (.ring 0)
      (vlanEntry "add" "52:54:00:12:34:56" "0").str :=
    entryRequest_ring "add" (by decide +kernel) (by decide) (.inr ⟨rfl, by decide +kernel⟩)
  have hdel : EntryRequest (.sample .vf) .del (some 100) "52:54:00:12:34:56" (.ring 0)
      (vlanEntry "del" "52:54:00:12:34:56" "0").str :=
    entryRequest_ring "del" (by decide +kernel) (by decide) (.inr ⟨rfl, by decide +kernel⟩)
  obtain ⟨-, hlocal, -, hback⟩ := entryLocal_iff (.sample .vf) sample_fitsInt rfl hrun hG
    (by decide) hcls (by simp [hports]) (by decide +kernel) hadd hs hdel (by decide +kernel)
  refine ⟨s, s', s'', hs, hs', hlocal.mpr
    ⟨by decide, by decide +kernel, by decide +kernel, fun r' hr' => ?_⟩, (hback s'' hs').2⟩
  rw [hports, show ([.ring 0, .ring 1] : List PortRef).drop
    (([.ring 0, .ring 1] : List PortRef).idxOf (.ring 0) + 1) = [.ring 1] from by decide,
    List.mem_singleton] at hr'
  rw [hr', hasKey, decide_eq_false_iff_not]
  exact fun hk => hk.1 hfree

/-- A frame by which an entry is not local. -/
def Strays (cmp cmp' : ClsCompInfo) (r : PortRef) (v : Option ℕ) (m : MacAddr) (f : Frame) : Prop :=
  f.multicast = false ∧
    ((vlanOf f = v ∧ f.dAddr = m ∧ queuedPorts cmp' f ≠ [r.portIdx]) ∨
      (¬(vlanOf f = v ∧ f.dAddr = m) ∧ queuedPorts cmp' f ≠ queuedPorts cmp f))

instance (cmp cmp' : ClsCompInfo) (r : PortRef) (v : Option ℕ) (m : MacAddr) (f : Frame) :
    Decidable (Strays cmp cmp' r v m f) :=
  inferInstanceAs (Decidable (_ ∧ _))

theorem Strays.not_entryLocal {cmp cmp' : ClsCompInfo}
    {f : Frame} (h : Strays cmp cmp' r o m f) : ¬ EntryLocal cmp cmp' r o m := by
  intro hlocal
  obtain ⟨hf, ⟨hv, hd, hne⟩ | ⟨hnot, hne⟩⟩ := h
  · exact hne (hlocal.there f hf hv hd)
  · exact hne (hlocal.others f hf hnot)

/-- After some requests that succeed, an entry for the ring 0 succeeds and is not local. -/
def BreaksLocality (setup : List Request) (e : Request) (v : Option ℕ) (mac : CString) : Prop :=
  ∃ hist s s', Run (workerSystem (.sample .vf)) hist s ∧ hist.map Prod.snd = setup.reverse ∧
    Guarded (SyncGuard (.sample .vf)) hist ∧ (s.mng.comp 0).wkType = .cls ∧
    .ring 0 ∈ (s.mng.comp 0).ports .tx ∧ EntryRequest (.sample .vf) .add v mac (.ring 0) e.str ∧
    Succeeds (.sample .vf) s e s' ∧
    ¬ EntryLocal (s.cls 0).ref (s'.cls 0).ref (.ring 0) v (macAddrOf mac)

theorem breaksLocality_of_test {setup : List Request}
    (f : Frame) (hmac : IsMac mac) (htok : RingTokens "add" mac v e.str)
    (h : (setup.foldlM (checked succeedsAlone (handleRequest (.sample .vf)))
      (startUp (.sample .vf))).any (fun s => succeeds s e ∧
        (handleRequest (.sample .vf) s e).any fun s' => decide ((s.mng.comp 0).wkType = .cls ∧
          .ring 0 ∈ (s.mng.comp 0).ports .tx ∧
          Strays (s.cls 0).ref (s'.cls 0).ref (.ring 0) v (macAddrOf mac) f)) = true) :
    BreaksLocality setup e v mac := by
  obtain ⟨hist, s, s', hrun, hmap, hG, hs, hQ⟩ := exists_step_of_test setup e _ h
  obtain ⟨hcls, hr, hstray⟩ := of_decide_eq_true hQ
  exact ⟨hist, s, s', hrun, hmap, hG, hcls, hr, entryRequest_ring _ hmac (by decide) htok, hs,
    hstray.not_entryLocal⟩

/-- **Four entries that are not local.**  With `00:00:00:00:00:01` the frames of the VLAN id to any
other address move to the ring; with zero none goes to it; where a later ring has the entry already,
the frames stay with that one; and an entry for untagged frames moves those with the id 4095. -/
theorem not_entryLocal_ring :
    BreaksLocality ringClassifier (vlanEntry "add" "00:00:00:00:00:01" "0") (some 100)
      "00:00:00:00:00:01" ∧
    BreaksLocality ringClassifier (vlanEntry "add" "00:00:00:00:00:00" "0") (some 100)
      "00:00:00:00:00:00" ∧
    BreaksLocality (ringClassifier ++ [vlanEntry "add" "52:54:00:12:34:56" "1"])
      (vlanEntry "add" "52:54:00:12:34:56" "0") (some 100) "52:54:00:12:34:56" ∧
    BreaksLocality ringClassifier (.plain "classifier_table add mac 52:54:00:12:34:56 ring:0") none
      "52:54:00:12:34:56" := by
  refine ⟨?_, ?_, ?_, ?_⟩
  · exact breaksLocality_of_test (frameTo 0x563412005452#48 (some 100)) (by decide +kernel)
      (.inr ⟨rfl, by decide +kernel⟩) (by decide +kernel)
  · exact breaksLocality_of_test (frameTo 0 (some 100)) (by decide +kernel)
      (.inr ⟨rfl, by decide +kernel⟩) (by decide +kernel)
  · exact breaksLocality_of_test (frameTo 0x563412005452#48 (some 100)) (by decide +kernel)
      (.inr ⟨rfl, by decide +kernel⟩) (by decide +kernel)
  · exact breaksLocality_of_test (frameTo 0x563412005452#48 (some 4095)) (by decide +kernel)
      (.inl ⟨rfl, by decide +kernel⟩) (by decide +kernel)

end SoftPatchPanel.Vf
