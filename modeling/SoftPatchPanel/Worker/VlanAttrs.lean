import SoftPatchPanel.Worker.Ownership

/-!
# VLAN attributes and attachments

A `port add` that names a VLAN operation stores it twice over: the port goes into
the list of the component, and the operation into the attribute slots of the port.
The slots know the direction but not the component, so they follow the attachment
only as long as every command that ends the one ends the other.

Three commands do not.  Stopping a component drops its lists and leaves the slots.
Deleting a port from a component that does not have it clears the slots of whoever
has it.  Replacing a tag goes to the first slot with a tag to be added, which may
belong to the other direction.  And the requests that share a port out to two
components, which break ownership, break this as well.

A run without such commands keeps slots and attachments in step (`tagsFollow_of_run`).
Whether an attachment was made with an operation is nowhere in the state; it is read
off the history of the run (`VlanAttached`).
-/

namespace SoftPatchPanel.Worker

open Transition
open Function (update update_self update_of_ne)

variable {P : Platform} {h : List (State × Request)} {s s' : State} {e : Request} {r : PortRef}
  {dir : PortDir} {p : CmdPort} {id : ℕ} {port : PortInfo} {i j : Fin portCapablMax} {a : PortAttrs}
  {E : PmdEnv} {m : MngData} {c : CmdComp}

/-- An attribute slot of the direction is in use. -/
def PortInfo.TagAt (port : PortInfo) (dir : PortDir) (i : Fin portCapablMax) : Prop :=
  (port.portAttrs i).ops ≠ .none ∧ (port.portAttrs i).dir = dir

/-- The request is a `port add` that names a VLAN operation. -/
def NamesVlan (P : Platform) (s : State) (e : Request) : Prop :=
  ∃ p, parseWkCmd P s.mng e.str = .ok (.ok (.port p)) ∧ p.wkAction = .add ∧
    p.portAttrs.ops ≠ .none

/-- The component has the port, and the step of the history that attached it named a
VLAN operation. -/
def VlanAttached (P : Platform) : List (State × Request) → ℕ → PortDir → PortRef → Prop
  | [], _, _, _ => False
  | (s, e) :: h, id, dir, r =>
    (∃ s', handleRequest P s e = some s' ∧ r ∈ (s'.mng.comp id).ports dir) ∧
      ((r ∈ (s.mng.comp id).ports dir ∧ VlanAttached P h id dir r) ∨
        (r ∉ (s.mng.comp id).ports dir ∧ NamesVlan P s e))

/-- **Attributes follow attachments.**  In each direction a port has at most one
attribute, and it has one exactly when a live component has the port by a `port add`
that named a VLAN operation. -/
structure TagsFollow (P : Platform) (h : List (State × Request)) (m : MngData) : Prop where
  unique : ∀ r dir, dir = .rx ∨ dir = .tx → ∀ i j,
    (m.iface r).TagAt dir i → (m.iface r).TagAt dir j → i = j
  follow : ∀ r dir, dir = .rx ∨ dir = .tx → ((∃ i, (m.iface r).TagAt dir i) ↔
    ∃ id < P.maxLcore, (m.comp id).wkType ≠ .none ∧ VlanAttached P h id dir r)

/-- What a request must not do: skip the tests for ports in use, stop a component
that has tags, delete a tagged port from a component that does not have it, or
replace the tag of the other direction. -/
structure TagGuard (P : Platform) (s : State) (e : Request) : Prop where
  owner : OwnershipGuard P s e
  stop : ∀ c id, parseWkCmd P s.mng e.str = .ok (.ok (.worker c)) → c.wkAction = .stop →
    sppwkGetLcoreId P s.mng c.name = some id → ∀ dir, dir = .rx ∨ dir = .tx →
    ∀ r ∈ (s.mng.comp id).ports dir, ∀ i, ¬ (s.mng.iface r).TagAt dir i
  del : ∀ p id r, parseWkCmd P s.mng e.str = .ok (.ok (.port p)) → p.wkAction = .del →
    sppwkGetLcoreId P s.mng p.name = some id →
    getSppwkPort P p.port.ifaceType p.port.ifaceNo p.port.queueNo = .ok (some r) →
    r ∉ (s.mng.comp id).ports p.dir → ∀ i, ¬ (s.mng.iface r).TagAt p.dir i
  retag : ∀ p id r i, parseWkCmd P s.mng e.str = .ok (.ok (.port p)) → p.wkAction = .add →
    sppwkGetLcoreId P s.mng p.name = some id →
    getSppwkPort P p.port.ifaceType p.port.ifaceNo p.port.queueNo = .ok (some r) →
    r ∈ (s.mng.comp id).ports p.dir → p.portAttrs.ops = .addVlan →
    (s.mng.iface r).slotOf .addVlan = some i → ((s.mng.iface r).portAttrs i).dir = p.dir

/-! ## One port in one direction -/

/-- The invariant for one port and one direction. -/
structure Follows (P : Platform) (h : List (State × Request)) (m : MngData) (r : PortRef)
    (dir : PortDir) : Prop where
  unique : ∀ i j, (m.iface r).TagAt dir i → (m.iface r).TagAt dir j → i = j
  follow : (∃ i, (m.iface r).TagAt dir i) ↔ ∃ id < P.maxLcore, VlanAttached P h id dir r

theorem namesVlan_iff (hparse : parseWkCmd P s.mng e.str = .ok (.ok (.port p)))
    (hact : p.wkAction = .add) : NamesVlan P s e ↔ p.portAttrs.ops ≠ .none := by
  constructor
  · rintro ⟨p', hparse', -, hops⟩
    rw [hparse] at hparse'
    cases hparse'
    exact hops
  · exact fun hops => ⟨p, hparse, hact, hops⟩

theorem vlanAttached_cons (hstep : handleRequest P s e = some s') :
    VlanAttached P ((s, e) :: h) id dir r ↔ r ∈ (s'.mng.comp id).ports dir ∧
      ((r ∈ (s.mng.comp id).ports dir ∧ VlanAttached P h id dir r) ∨
        (r ∉ (s.mng.comp id).ports dir ∧ NamesVlan P s e)) := by
  constructor
  · rintro ⟨⟨t, ht, hr⟩, hcases⟩
    rw [hstep] at ht
    cases ht
    exact ⟨hr, hcases⟩
  · rintro ⟨hr, hcases⟩
    exact ⟨⟨s', hstep, hr⟩, hcases⟩

/-- A step that changes neither slots nor lists. -/
theorem Follows.quiet (hf : Follows P h s.mng r dir) (hstep : handleRequest P s e = some s')
    (hheld : ∀ id, VlanAttached P h id dir r → r ∈ (s.mng.comp id).ports dir)
    (htag : ∀ i, (s'.mng.iface r).TagAt dir i ↔ (s.mng.iface r).TagAt dir i)
    (hports : ∀ id, r ∈ (s'.mng.comp id).ports dir ↔ r ∈ (s.mng.comp id).ports dir) :
    Follows P ((s, e) :: h) s'.mng r dir := by
  have hattached (id : ℕ) : VlanAttached P ((s, e) :: h) id dir r ↔ VlanAttached P h id dir r := by
    rw [vlanAttached_cons hstep, hports]
    constructor
    · rintro ⟨hr, ⟨-, hold⟩ | ⟨hnot, -⟩⟩
      · exact hold
      · exact absurd hr hnot
    · intro hold
      have hr := hheld id hold
      exact ⟨hr, .inl ⟨hr, hold⟩⟩
  refine ⟨fun i j hi hj => hf.unique i j ((htag i).mp hi) ((htag j).mp hj), ?_⟩
  simp only [htag, hattached]
  exact hf.follow

/-- A step after which nobody has the port and no slot is in use. -/
theorem Follows.gone (hstep : handleRequest P s e = some s')
    (htag : ∀ i, ¬ (s'.mng.iface r).TagAt dir i)
    (hports : ∀ id < P.maxLcore, r ∉ (s'.mng.comp id).ports dir) :
    Follows P ((s, e) :: h) s'.mng r dir := by
  refine ⟨fun i _ hi => absurd hi (htag i), iff_of_false ?_ ?_⟩
  · rintro ⟨i, hi⟩
    exact htag i hi
  · rintro ⟨id, hid, hatt⟩
    exact hports id hid ((vlanAttached_cons hstep).mp hatt).1

/-- A port that nobody had is attached, and a slot is in use if the request named an
operation. -/
theorem Follows.fresh (hstep : handleRequest P s e = some s') (hid : id < P.maxLcore)
    (hbefore : ∀ i < P.maxLcore, r ∉ (s.mng.comp i).ports dir)
    (hafter : r ∈ (s'.mng.comp id).ports dir)
    (hunique : ∀ i j, (s'.mng.iface r).TagAt dir i → (s'.mng.iface r).TagAt dir j → i = j)
    (htag : (∃ i, (s'.mng.iface r).TagAt dir i) ↔ NamesVlan P s e) :
    Follows P ((s, e) :: h) s'.mng r dir := by
  refine ⟨hunique, htag.trans ?_⟩
  constructor
  · intro hnames
    exact ⟨id, hid, (vlanAttached_cons hstep).mpr ⟨hafter, .inr ⟨hbefore id hid, hnames⟩⟩⟩
  rintro ⟨i, hi, hatt⟩
  rcases ((vlanAttached_cons hstep).mp hatt).2 with ⟨hr, -⟩ | ⟨-, hnames⟩
  · exact absurd hr (hbefore i hi)
  · exact hnames

/-! ## The slots under the changes -/

theorem slotOf_eq_some {ops : PortOps}
    (h : port.slotOf ops = some i) : (port.portAttrs i).ops = ops := by
  simpa using List.find?_some h

theorem tagAt_setAttr : (port.setAttr i a).TagAt dir j ↔
      if j = i then a.ops ≠ .none ∧ a.dir = dir else port.TagAt dir j := by
  rw [PortInfo.TagAt, PortInfo.setAttr]
  split
  · rename_i hj
    rw [hj]
    simp
  · rename_i hj
    simp [hj, PortInfo.TagAt]

/-- Clearing a direction leaves the tags of the other. -/
theorem tagAt_clearAttrs {d : PortDir} :
    (port.clearAttrs d).TagAt dir i ↔ port.TagAt dir i ∧ dir ≠ d := by
  unfold PortInfo.TagAt PortInfo.clearAttrs
  simp only
  split
  · rename_i hi
    refine iff_of_false (fun h => h.1 rfl) ?_
    rintro ⟨⟨-, hdir⟩, hne⟩
    exact hne (hdir.symm.trans hi.2)
  · rename_i hi
    refine ⟨fun h => ⟨h, ?_⟩, fun h => h.1⟩
    rintro rfl
    exact hi h

/-- A tag that replaces one of its own direction changes no slot's direction. -/
theorem tagAt_retag (hslot : port.slotOf .addVlan = some i) (hops : a.ops = .addVlan)
    (hdir : (port.portAttrs i).dir = a.dir) :
    (port.setAttr i a).TagAt dir j ↔ port.TagAt dir j := by
  rw [tagAt_setAttr]
  split
  · rename_i hj
    rw [PortInfo.TagAt, hj, slotOf_eq_some hslot, hops, hdir]
  · exact Iff.rfl

/-- A tag in a free slot adds itself. -/
theorem tagAt_setAttr_free (hslot : port.slotOf .none = some i) :
    (port.setAttr i a).TagAt dir j ↔
      port.TagAt dir j ∨ (j = i ∧ a.ops ≠ .none ∧ a.dir = dir) := by
  rw [tagAt_setAttr]
  split
  · rename_i hj
    have hfree : ¬ port.TagAt dir j := fun h => h.1 (hj ▸ slotOf_eq_some hslot)
    rw [or_iff_right hfree, and_iff_right hj]
  · rename_i hj
    rw [or_iff_left fun h => hj h.1]

section Attached

variable {port port' : PortInfo} {a : PortAttrs}
  (hattr : (a.ops = .none ∧ port' = port) ∨
    (a.ops ≠ .none ∧ ∃ i, port.slotOf .none = some i ∧ port' = port.setAttr i a))

include hattr

/-- An attachment leaves the tags of the other direction. -/
theorem tagAt_attached_of_ne (hdir : a.ops ≠ .none → a.dir ≠ dir) {j : Fin portCapablMax} :
    port'.TagAt dir j ↔ port.TagAt dir j := by
  rcases hattr with ⟨-, rfl⟩ | ⟨hops, i, hslot, rfl⟩
  · exact Iff.rfl
  · rw [tagAt_setAttr_free hslot]
    exact or_iff_left fun h => hdir hops h.2.2

/-- An attachment to a direction without tags leaves at most one tag there. -/
theorem tagAt_attached_unique (hno : ∀ i, ¬ port.TagAt dir i) (j k : Fin portCapablMax)
    (hj : port'.TagAt dir j) (hk : port'.TagAt dir k) : j = k := by
  rcases hattr with ⟨-, rfl⟩ | ⟨-, i, hslot, rfl⟩
  · exact absurd hj (hno j)
  · rw [tagAt_setAttr_free hslot, or_iff_right (hno _)] at hj hk
    exact hj.1.trans hk.1.symm

/-- An attachment to a direction without tags leaves a tag there when it names one. -/
theorem exists_tagAt_attached (hno : ∀ i, ¬ port.TagAt dir i)
    (hdir : a.ops ≠ .none → a.dir = dir) : (∃ i, port'.TagAt dir i) ↔ a.ops ≠ .none := by
  rcases hattr with ⟨hops, rfl⟩ | ⟨hops, i, hslot, rfl⟩
  · exact iff_of_false (fun ⟨i, hi⟩ => hno i hi) fun h => h hops
  · refine iff_of_true ⟨i, ?_⟩ hops
    rw [tagAt_setAttr_free hslot]
    exact .inr ⟨rfl, hops, hdir hops⟩

end Attached

theorem FlushEffect.tagAt_iff {m' : MngData} (hf : FlushEffect P E m m') :
    (m'.iface r).TagAt dir i ↔ (m.iface r).TagAt dir i := by
  rw [hf.iface r]
  exact Iff.rfl

/-! ## The lists under the changes -/

theorem mem_ports_editPort {id' : ℕ} {r' : PortRef}
    {c : CompInfo} : r ∈ ((m.editPort id r' port c).comp id').ports dir ↔
      if id' = id then r ∈ c.ports dir else r ∈ (m.comp id').ports dir := by
  show r ∈ (update m.comp id c id').ports dir ↔ _
  split
  · rename_i hid
    rw [hid, update_self]
  · rename_i hid
    rw [update_of_ne hid]

/-! ## One request -/

/-- What a run keeps: ownership, and that attributes follow attachments. -/
structure Followed (P : Platform) (h : List (State × Request)) (s : State) : Prop where
  owned : Owned P s.mng
  held : ∀ id dir r, VlanAttached P h id dir r → r ∈ (s.mng.comp id).ports dir
  follows : ∀ r dir, dir = .rx ∨ dir = .tx → Follows P h s.mng r dir

theorem Followed.tagsFollow (hf : Followed P h s) : TagsFollow P h s.mng := by
  refine ⟨fun r dir hdir => (hf.follows r dir hdir).unique, fun r dir hdir => ?_⟩
  rw [(hf.follows r dir hdir).follow]
  constructor
  · rintro ⟨id, hid, hatt⟩
    exact ⟨id, hid, hf.owned.typed id dir hdir r (hf.held id dir r hatt), hatt⟩
  · rintro ⟨id, hid, -, hatt⟩
    exact ⟨id, hid, hatt⟩

section Step

variable (hF : Followed P h s) (hstep : handleRequest P s e = some s') (hG : TagGuard P s e)
  (hdir : dir = .rx ∨ dir = .tx) {m₁ : MngData} {E : PmdEnv} (hf : FlushEffect P E m₁ s'.mng)
  {id : ℕ}

include hF hstep hdir hf

/-- A change that touches neither slots nor lists of the port. -/
theorem Followed.quiet (htag : ∀ i, (m₁.iface r).TagAt dir i ↔ (s.mng.iface r).TagAt dir i)
    (hports : ∀ id, r ∈ (m₁.comp id).ports dir ↔ r ∈ (s.mng.comp id).ports dir) :
    Follows P ((s, e) :: h) s'.mng r dir := by
  refine (hF.follows r dir hdir).quiet hstep (fun id => hF.held id dir r) (fun i => ?_) fun id => ?_
  · rw [hf.tagAt_iff, htag]
  · rw [hf.comp, hports]

include hG

theorem Followed.stop {c : CmdComp}
    (hparse : parseWkCmd P s.mng e.str = .ok (.ok (.worker c))) (hact : c.wkAction = .stop)
    (hid : sppwkGetLcoreId P s.mng c.name = some id) (hm : m₁ = s.mng.stopComp id) :
    Follows P ((s, e) :: h) s'.mng r dir := by
  have hcomp (i : ℕ) : (m₁.comp i).ports dir = if i = id then [] else (s.mng.comp i).ports dir := by
    rw [hm]
    show (update s.mng.comp id CompInfo.zero i).ports dir = _
    split
    · rename_i hi
      rw [hi, update_self, CompInfo.ports_zero]
    · rename_i hi
      rw [update_of_ne hi]
  by_cases hr : r ∈ (s.mng.comp id).ports dir
  · -- the guard: the port has no tag that could be left behind
    refine Follows.gone hstep (fun i => ?_) fun i hi => ?_
    · rw [hf.tagAt_iff, hm]
      exact hG.stop c id hparse hact hid dir hdir r hr i
    rw [hf.comp, hcomp]
    split
    · exact List.not_mem_nil
    · rename_i hne
      intro hri
      exact hne (hF.owned.disjoint dir hdir i hi id (sppwkGetLcoreId_eq_some P hid).1 r hri hr)
  · refine hF.quiet hstep hdir hf (fun i => ?_) fun i => ?_
    · rw [hm]
      exact Iff.rfl
    rw [hcomp]
    split
    · rename_i hi
      exact iff_of_false List.not_mem_nil (hi ▸ hr)
    · exact Iff.rfl

variable {p : CmdPort} {r₀ : PortRef}
  (hparse : parseWkCmd P s.mng e.str = .ok (.ok (.port p)))
  (hid : sppwkGetLcoreId P s.mng p.name = some id)
  (hport : getSppwkPort P p.port.ifaceType p.port.ifaceNo p.port.queueNo = .ok (some r₀))

include hparse hid hport

theorem Followed.retag {i : Fin portCapablMax} (hact : p.wkAction = .add)
    (hlisted : r₀ ∈ (s.mng.comp id).ports p.dir) (hops : p.portAttrs.ops = .addVlan)
    (hslot : (s.mng.iface r₀).slotOf .addVlan = some i)
    (hm : m₁ = s.mng.editPort id r₀ ((s.mng.iface r₀).setAttr i p.portAttrs) (s.mng.comp id)) :
    Follows P ((s, e) :: h) s'.mng r dir := by
  have hattr : p.portAttrs.dir = p.dir :=
    (parseWkCmd_port hparse).attrs_dir (by rw [hops]; decide)
  refine hF.quiet hstep hdir hf (fun j => ?_) fun i => ?_
  · rw [hm]
    rcases eq_or_ne r r₀ with rfl | hne
    · have hd := hG.retag p id r i hparse hact hid hport hlisted hops hslot
      show (update s.mng.iface r _ r).TagAt dir j ↔ _
      rw [update_self]
      exact tagAt_retag hslot hops (hd.trans hattr.symm)
    · show (update s.mng.iface r₀ _ r).TagAt dir j ↔ _
      rw [update_of_ne hne]
  · rw [hm, mem_ports_editPort]
    split
    · rename_i hi
      rw [hi]
    · exact Iff.rfl

theorem Followed.attach {port : PortInfo} (hact : p.wkAction = .add)
    (hnew : r₀ ∉ (s.mng.comp id).ports p.dir)
    (hattr : (p.portAttrs.ops = .none ∧ port = s.mng.iface r₀) ∨
      (p.portAttrs.ops ≠ .none ∧ ∃ i, (s.mng.iface r₀).slotOf .none = some i ∧
        port = (s.mng.iface r₀).setAttr i p.portAttrs))
    (hm : m₁ = s.mng.editPort id r₀ { port with ifaceType := p.port.ifaceType }
      ((s.mng.comp id).addPort p.dir r₀)) :
    Follows P ((s, e) :: h) s'.mng r dir := by
  have hacc := parseWkCmd_port hparse
  have hports (i : ℕ) : r ∈ (m₁.comp i).ports dir ↔
      r ∈ (s.mng.comp i).ports dir ∨ (i = id ∧ r = r₀ ∧ dir = p.dir) := by
    rw [hm, mem_ports_editPort]
    split
    · rename_i hi
      rw [CompInfo.mem_ports_addPort hacc.dir hdir, hi, and_iff_right rfl]
    · rename_i hi
      rw [or_iff_left fun h => hi h.1]
  have htag₀ : ∀ j, (m₁.iface r₀).TagAt dir j ↔ port.TagAt dir j := by
    intro j
    rw [hm]
    show (update s.mng.iface r₀ _ r₀).TagAt dir j ↔ _
    rw [update_self]
    exact Iff.rfl
  by_cases heq : r = r₀ ∧ dir = p.dir
  · obtain ⟨rfl, rfl⟩ := heq
    have hbefore : ∀ i < P.maxLcore, r ∉ (s.mng.comp i).ports p.dir := by
      intro i hi
      rcases eq_or_ne i id with rfl | hne
      · exact hnew
      · exact notMem_ports_of_accepted hF.owned hG.owner hparse hact hid hport i hi hne
    have hnotag : ∀ i, ¬ (s.mng.iface r).TagAt p.dir i := by
      intro i hi
      obtain ⟨id', hid', hatt⟩ := (hF.follows r p.dir hdir).follow.mp ⟨i, hi⟩
      exact hbefore id' hid' (hF.held id' p.dir r hatt)
    have hafter : r ∈ (s'.mng.comp id).ports p.dir := by
      rw [hf.comp]
      exact (hports id).mpr (.inr ⟨rfl, rfl, rfl⟩)
    refine Follows.fresh hstep (sppwkGetLcoreId_eq_some P hid).1 hbefore hafter ?_ ?_
    all_goals
      simp only [hf.tagAt_iff, htag₀]
    · exact tagAt_attached_unique hattr hnotag
    · rw [exists_tagAt_attached hattr hnotag hacc.attrs_dir]
      exact (namesVlan_iff hparse hact).symm
  · refine hF.quiet hstep hdir hf (fun j => ?_) fun i => ?_
    · rcases eq_or_ne r r₀ with rfl | hne
      · rw [htag₀]
        exact tagAt_attached_of_ne hattr fun hops hd =>
          heq ⟨rfl, hd.symm.trans (hacc.attrs_dir hops)⟩
      · rw [hm]
        show (update s.mng.iface r₀ _ r).TagAt dir j ↔ _
        rw [update_of_ne hne]
    · rw [hports, or_iff_left fun h => heq h.2]

theorem Followed.detach (hact : p.wkAction = .del)
    (hm : m₁ = s.mng.editPort id r₀ ((s.mng.iface r₀).clearAttrs p.dir)
      ((s.mng.comp id).delPort p.dir r₀)) :
    Follows P ((s, e) :: h) s'.mng r dir := by
  have hacc := parseWkCmd_port hparse
  have hports (i : ℕ) : r ∈ (m₁.comp i).ports dir ↔
      r ∈ (s.mng.comp i).ports dir ∧ ¬ (i = id ∧ r = r₀ ∧ dir = p.dir) := by
    rw [hm, mem_ports_editPort]
    split
    · rename_i hi
      rw [CompInfo.mem_ports_delPort hacc.dir hdir (hF.owned.nodup id dir hdir), hi,
        and_iff_right rfl]
    · rename_i hi
      rw [and_iff_left fun h => hi h.1]
  have htag : ∀ j, (m₁.iface r).TagAt dir j ↔
      (s.mng.iface r).TagAt dir j ∧ ¬ (r = r₀ ∧ dir = p.dir) := by
    intro j
    rw [hm]
    rcases eq_or_ne r r₀ with rfl | hne
    · show (update s.mng.iface r _ r).TagAt dir j ↔ _
      rw [update_self, tagAt_clearAttrs, and_iff_right rfl]
    · show (update s.mng.iface r₀ _ r).TagAt dir j ↔ _
      rw [update_of_ne hne, and_iff_left fun h => hne h.1]
  by_cases heq : r = r₀ ∧ dir = p.dir
  · by_cases hr : r ∈ (s.mng.comp id).ports dir
    · -- the owner lets the port go, and nobody else has it
      refine Follows.gone hstep (fun i => ?_) fun i hi => ?_
      · rw [hf.tagAt_iff, htag]
        exact fun h => h.2 heq
      rw [hf.comp, hports]
      rintro ⟨hri, hne⟩
      have hlt := (sppwkGetLcoreId_eq_some P hid).1
      exact hne ⟨hF.owned.disjoint dir hdir i hi id hlt r hri hr, heq⟩
    · -- the guard: there is no tag that could be taken from another component
      refine hF.quiet hstep hdir hf (fun i => ?_) fun i => ?_
      · obtain ⟨rfl, rfl⟩ := heq
        have hnot := hG.del p id r hparse hact hid hport hr i
        rw [htag]
        exact iff_of_false (fun h => hnot h.1) hnot
      · rw [hports]
        refine and_iff_left_of_imp fun hri h => ?_
        exact hr (h.1 ▸ hri)
  · refine hF.quiet hstep hdir hf (fun i => ?_) fun i => ?_
    · rw [htag, and_iff_left heq]
    · rw [hports, and_iff_left fun h => heq h.2]

end Step

theorem Followed.start (hF : Followed P h s) (hstep : handleRequest P s e = some s')
    (hdir : dir = .rx ∨ dir = .tx)
    (hid : getFreeLcoreId P s.mng = some id) (hf : FlushEffect P E (s.mng.startComp c id) s'.mng) :
    Follows P ((s, e) :: h) s'.mng r dir := by
  have hfree : r ∉ (s.mng.comp id).ports dir := fun hr =>
    hF.owned.typed id dir hdir r hr (getFreeLcoreId_eq_some P hid).2
  refine hF.quiet hstep hdir hf (fun _ => Iff.rfl) fun i => ?_
  show r ∈ (update s.mng.comp id (startedComp c id) i).ports dir ↔ _
  rcases eq_or_ne i id with rfl | hne
  · rw [update_self, ports_startedComp]
    exact iff_of_false List.not_mem_nil hfree
  · rw [update_of_ne hne]

/-- **A request that meets the guard keeps attributes and attachments in step.** -/
theorem Followed.step (hvf : P.module = .vf) (hF : Followed P h s) (hG : TagGuard P s e)
    (hstep : handleRequest P s e = some s') : Followed P ((s, e) :: h) s' := by
  refine ⟨hF.owned.step hvf hG.owner hstep, fun id dir r hatt => ?_, fun r dir hdir => ?_⟩
  · exact ((vlanAttached_cons hstep).mp hatt).1
  rcases handleRequest_cases hstep with rfl | ⟨cmd, m₁, ret, hparse, -, hchange, hflush⟩
  · exact (hF.follows r dir hdir).quiet hstep (fun id => hF.held id dir r) (fun _ => Iff.rfl)
      fun _ => Iff.rfl
  have hf : FlushEffect P e.env.pmd m₁ s'.mng := flushCmd_effect hflush
  cases hchange with
  | @entry _ _ _ r₀ _ _ _ _ _ _ _ hflag =>
    obtain ⟨change, rfl⟩ := setComponentChangePort_eq_ok hflag
    refine hF.quiet hstep hdir hf (fun i => ?_) fun _ => Iff.rfl
    show (update s.mng.iface r₀ _ r).TagAt dir i ↔ _
    rcases eq_or_ne r r₀ with rfl | hne
    · rw [update_self]
      exact Iff.rfl
    · rw [update_of_ne hne]
  | start _ _ hid => exact hF.start hstep hdir hid hf
  | stop hact hid => exact hF.stop hstep hG hdir hf hparse hact hid rfl
  | absent | listed => exact hF.quiet hstep hdir hf (fun _ => Iff.rfl) fun _ => Iff.rfl
  | retag hact hid hport _ hlisted hops hslot =>
    exact hF.retag hstep hG hdir hf hparse hid hport hact (CompInfo.mem_ports.mpr hlisted) hops
      hslot rfl
  | attach hact hid hport _ hnew _ hattr =>
    exact hF.attach hstep hG hdir hf hparse hid hport hact
      (fun hr => hnew (CompInfo.mem_ports.mp hr)) hattr rfl
  | detach hact hid hport => exact hF.detach hstep hG hdir hf hparse hid hport hact rfl

theorem portAttrs_startUp (r : PortRef) : ((startUp P).mng.iface r).portAttrs = fun _ => .zero := by
  obtain ⟨t, id, hr, -⟩ := initHostPortInfo_typedFrom P initPortInfo r
  show (initHostPortInfo P initPortInfo r).portAttrs = _
  rw [hr]
  cases r <;> rfl

theorem followed_startUp : Followed P [] (startUp P) := by
  have hnotag : ∀ r dir i, ¬ ((startUp P).mng.iface r).TagAt dir i := by
    intro r dir i hi
    rw [PortInfo.TagAt, portAttrs_startUp] at hi
    exact hi.1 rfl
  refine ⟨owned_startUp, fun _ _ _ hatt => hatt.elim, fun r dir _ => ?_⟩
  refine ⟨fun i _ hi => absurd hi (hnotag r dir i), iff_of_false ?_ ?_⟩
  · exact fun ⟨i, hi⟩ => hnotag r dir i hi
  · exact fun ⟨_, _, hatt⟩ => hatt

/-- **VLAN attributes follow attachments** in every state of a run of `spp_vf` whose
requests meet the guard. -/
theorem tagsFollow_of_run (P : Platform) (hvf : P.module = .vf) {h : List (State × Request)}
    {s : State} (hrun : Run (workerSystem P) h s) (hG : Guarded (TagGuard P) h) :
    TagsFollow P h s.mng := by
  have hfollowed : Followed P h s := by
    refine hrun.invariant_trace (J := Followed P) ?_ ?_ hG
    · rintro _ rfl
      exact followed_startUp
    · intro h s e s' hs hg hstep
      exact hs.step hvf hg hstep
  exact hfollowed.tagsFollow

/-- A start meets the guard. -/
theorem TagGuard.of_start (hparse : parseWkCmd P s.mng e.str = .ok (.ok (.worker c)))
    (hact : c.wkAction = .start) : TagGuard P s e where
  owner p _ _ hp := by
    rw [hparse] at hp
    cases hp
  stop c' _ hc hstop := by
    rw [hparse] at hc
    cases hc
    exact absurd (hact.symm.trans hstop) (by decide)
  del p _ _ hp := by
    rw [hparse] at hp
    cases hp
  retag p _ _ _ hp := by
    rw [hparse] at hp
    cases hp

/-- Adding a port while nobody has ports in its direction meets the guard. -/
theorem TagGuard.of_add (hparse : parseWkCmd P s.mng e.str = .ok (.ok (.port p)))
    (hact : p.wkAction = .add) (hnil : ∀ i < P.maxLcore, (s.mng.comp i).ports p.dir = []) :
    TagGuard P s e where
  owner p' id r hp _ _ _ _ i hi _ := by
    rw [hparse] at hp
    cases hp
    rw [hnil i hi]
    exact List.not_mem_nil
  stop c _ hc := by
    rw [hparse] at hc
    cases hc
  del p' _ _ hp hdel := by
    rw [hparse] at hp
    cases hp
    exact absurd (hact.symm.trans hdel) (by decide)
  retag p' id r _ hp _ hid _ hr := by
    rw [hparse] at hp
    cases hp
    rw [hnil id (sppwkGetLcoreId_eq_some P hid).1] at hr
    exact absurd hr List.not_mem_nil

/-- A test for requests that meet the guard for one of the two reasons above. -/
def startsOrAdds (s : State) (e : Request) : Bool :=
  match parseWkCmd (.sample .vf) s.mng e.str with
  | .ok (.ok (.worker c)) => c.wkAction = .start
  | .ok (.ok (.port p)) =>
    p.wkAction = .add ∧ ∀ i ∈ List.range 128, (s.mng.comp i).ports p.dir = []
  | _ => false

theorem TagGuard.of_startsOrAdds (h : startsOrAdds s e = true) : TagGuard (.sample .vf) s e := by
  unfold startsOrAdds at h
  split at h
  · rename_i c hparse
    exact .of_start hparse (of_decide_eq_true h)
  · rename_i p hparse
    obtain ⟨hact, hnil⟩ := of_decide_eq_true h
    exact .of_add hparse hact fun i hi => hnil i (List.mem_range.mpr hi)
  · exact absurd h (by simp)

/-- A forwarder with a tagged port. -/
theorem tagsFollow_of_run_tagged :
    ∃ h s, Run (workerSystem (.sample .vf)) h s ∧
      ((s.mng.iface (.phy 0 0)).portAttrs 0).ops ≠ .none ∧ TagsFollow (.sample .vf) h s.mng := by
  obtain ⟨h, s, hrun, -, hG, hs⟩ := exists_guarded_run startsOrAdds TagGuard.of_startsOrAdds
    (startUp (.sample .vf)) (handleRequest (.sample .vf))
    [.plain "component start c1 2 forward", .plain "port add phy:0 rx c1 add_vlantag 10 0"]
    (fun s => ((s.mng.iface (.phy 0 0)).portAttrs 0).ops ≠ .none) (by decide +kernel)
  exact ⟨h, s, hrun, hs, tagsFollow_of_run (.sample .vf) rfl hrun hG⟩

/-- **A tag without an attachment.**  Stopping the forwarder leaves the tag of its
port behind. -/
theorem not_tagsFollow_of_stop :
    ∃ h s, Run (workerSystem (.sample .vf)) h s ∧
      h.map Prod.snd =
        [.plain "component stop c1", .plain "port add phy:0 rx c1 add_vlantag 10 0",
          .plain "component start c1 2 forward"] ∧
      ¬ TagsFollow (.sample .vf) h s.mng := by
  obtain ⟨h, s, hrun, hmap, hops, hdir, hnobody⟩ := exists_run_of_requests (.sample .vf)
    [.plain "component start c1 2 forward", .plain "port add phy:0 rx c1 add_vlantag 10 0",
      .plain "component stop c1"]
    (fun s => ((s.mng.iface (.phy 0 0)).portAttrs 0).ops ≠ .none ∧
      ((s.mng.iface (.phy 0 0)).portAttrs 0).dir = .rx ∧
      ∀ id ∈ List.range 128, PortRef.phy 0 0 ∉ (s.mng.comp id).ports .rx)
    (by decide +kernel)
  refine ⟨h, s, hrun, hmap, fun hfollow => ?_⟩
  obtain ⟨id, hid, -, hatt⟩ := (hfollow.follow (.phy 0 0) .rx (.inl rfl)).mp ⟨0, hops, hdir⟩
  have hmem : PortRef.phy 0 0 ∈ (s.mng.comp id).ports .rx := by
    cases hrun with
    | start => exact hatt.elim
    | snoc _ hstep => exact ((vlanAttached_cons hstep).mp hatt).1
  exact hnobody id (List.mem_range.mpr hid) hmem

end SoftPatchPanel.Worker
