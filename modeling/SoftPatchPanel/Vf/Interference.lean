import SoftPatchPanel.Vf.Routing
import SoftPatchPanel.Worker.TwoSides

/-!
# Tx ports that share a multicast packet

A multicast packet is queued for several ports as one mbuf, and the VLAN operation of
a port edits the packet in the mbuf when the port's buffer goes out.  A port whose
buffer goes out later therefore starts from what the others have left, not from the
packet that was received.  This is harmless if the operations absorb each other, or
leave the packet as it is; it is not if, say, one port adds a tag and another has no
operation at all.

`Compatible` says which operations may share a packet.  `Apart` is the invariant of a
side: each packet in a buffer is in no other buffer and as it was received, or else is
in a state from which every operation that may come still gives what it would have
given at first (`Harmless`).  It survives every transmission
(`Apart.transmitPort`) and every packet that is classified, and so every run of the
worker, in whatever order the buffers fill up and go out.

The worker looks for the operation of a port in the table of its ethdev.  That is the port's
own operation (`OwnOps`) if its component has no two tx ports on one ethdev
(`ownOps_flushStep`); two queues of an ethdev with different operations both get the first.
-/

namespace SoftPatchPanel.Vf

open Worker Transition

/-! ## Operations on one packet -/

/-- The operations may be applied to the same packet, in any order: there is only one,
or none of them changes the packet, or all of them set the tag or take it away and no
second tag is uncovered. -/
def Compatible (f : Frame) (ops : List VlanOp) : Prop :=
  ops.length ≤ 1 ∨ (∀ o ∈ ops, o.apply f = f) ∨
    ((∀ o ∈ ops, o ≠ .none) ∧ (.del ∈ ops → f.NotStacked))

instance (f : Frame) (ops : List VlanOp) : Decidable (Compatible f ops) :=
  inferInstanceAs (Decidable (_ ∨ _ ∨ _))

/-- The VLAN operation that the attributes of a port ask for in what it sends. -/
def ownOp (port : PortInfo) : VlanOp :=
  match ((List.finRange portCapablMax).map port.portAttrs).find? (·.dir = .tx) with
  | none => .none
  | some a =>
    match a.ops with
    | .none => .none
    | .addVlan => .add (cpuToBe16 (calcTci a.vlantag.vid a.vlantag.pcp))
    | .delVlan => .del

/-- The tables have, for the ethdev of each tx port, the port's own operation. -/
def OwnOps (pc : PortCapability) (tx : List PortInfo) : Prop :=
  ∀ port ∈ tx, pc.txOp (port.ethdev % 2 ^ 16) = ownOp port

instance (pc : PortCapability) (tx : List PortInfo) : Decidable (OwnOps pc tx) :=
  inferInstanceAs (Decidable (∀ port ∈ tx, _))

theorem txOp_of_getPortAttrs {pc : PortCapability} {id : ℕ} {port : PortInfo}
    (h : pc.getPortAttrs id .tx = port.attrsOf .tx) : pc.txOp id = ownOp port := by
  have hfirst : pc.getPortAttrs id .tx 0 =
      ((((List.finRange portCapablMax).map port.portAttrs).find? (·.dir = .tx)).map
        PortAttrs.withTci).getD .zero := by
    rw [h, ← List.head?_filter, ← List.head?_map, List.head?_eq_getElem?]
    exact List.getD_eq_getElem?_getD
  unfold PortCapability.txOp ownOp
  rw [hfirst]
  cases ((List.finRange portCapablMax).map port.portAttrs).find? (·.dir = .tx) with
  | none => rfl
  | some a => cases hops : a.ops <;> simp [PortAttrs.withTci, hops]

/-- A flush of a component whose tx ports are on different ethdevs leaves their own operations
in the tables. -/
theorem ownOps_flushStep {P : Platform} (hP : P.maxEthports ≤ 2 ^ 16) {pc pc' : PortCapability}
    {e : Flush} (hpc : pc.Settled) (h : flushStep P pc e = some pc')
    (hnd : ((e.ports .tx).map PortInfo.ethdev).Nodup) : OwnOps pc' (e.ports .tx) := by
  intro port hport
  have hrange : ethdevsInRange P e.iface e.comp = true := by
    unfold flushStep at h
    split at h
    · assumption
    · cases h
  rw [ethdevsInRange, List.all_eq_true] at hrange
  have hdev := of_decide_eq_true (hrange port (List.mem_append_right _ hport))
  have hlt : port.ethdev < 2 ^ 16 := by
    unfold PortInfo.ethdev
    omega
  rw [Nat.mod_eq_of_lt hlt]
  apply txOp_of_getPortAttrs
  have hlast : e.lastWritten .tx port.ethdev = some port := by
    have hfound : (e.lastWritten .tx port.ethdev).isSome :=
      List.find?_isSome.mpr ⟨port, List.mem_reverse.mpr hport, decide_eq_true rfl⟩
    obtain ⟨q, hq⟩ := Option.isSome_iff_exists.mp hfound
    have hkey : q.ethdev = port.ethdev := by simpa using List.find?_some hq
    have hmem : q ∈ e.ports .tx := List.mem_reverse.mp (List.mem_of_find?_eq_some hq)
    exact hq.trans (congrArg some (List.inj_on_of_nodup_map hnd hmem hport hkey))
  rw [getPortAttrs_flushStep hpc h (.inr rfl) hnd, hlast]

/-- Whichever of the operations comes next, it makes of `f` what it would have made of
`f₀`; and this will stay so. -/
structure Harmless (ops : List VlanOp) (f₀ f : Frame) : Prop where
  same : ∀ o ∈ ops, o.apply f = o.apply f₀
  kind : (∀ o ∈ ops, o.apply f = f) ∨ ((∀ o ∈ ops, o ≠ .none) ∧ (.del ∈ ops → f.NotStacked))

variable {ops : List VlanOp} {f : Frame} {pc : PortCapability} {s s' : ClsSide} {i x : ℕ}
  {cmp : ClsCompInfo} {ports : List ℕ} {tx rx : List PortInfo} {burst : List (ℕ × Frame)}
  {E : HashEnv}

/-- An operation leaves the packet harmless for the others. -/
theorem Harmless.apply {f₀ : Frame} (h : Harmless ops f₀ f) {o : VlanOp}
    (ho : o ∈ ops) : Harmless ops f₀ (o.apply f) := by
  rcases h.kind with hsame | ⟨hne, hstack⟩
  · rwa [hsame o ho]
  refine ⟨fun p hp => ?_, .inr ⟨hne, fun hdel => ?_⟩⟩
  · rw [VlanOp.apply_apply (hne o ho) (hne p hp) fun hd => hstack (hd ▸ ho)]
    exact h.same p hp
  · exact o.notStacked_apply (hstack hdel)

theorem Compatible.harmless (h : Compatible f ops) (hlen : 1 < ops.length) : Harmless ops f f := by
  rcases h with hone | hkind
  · omega
  · exact ⟨fun _ _ => rfl, hkind⟩

/-! ## The invariant of a side -/

/-- The packets in the buffer of a tx port. -/
def ClsSide.pkts (s : ClsSide) (i : ℕ) : List ℕ := (s.1.txPortsI i).pkts

/-- The VLAN operation of a tx port. -/
def opAt (pc : PortCapability) (cmp : ClsCompInfo) (i : ℕ) : VlanOp :=
  pc.txOp (cmp.txPortsI i).ethdevPortId

/-- A packet in the buffers is in one of them only and as it was received, or harmless
for the ports that have it. -/
def Safe (pc : PortCapability) (s : ClsSide) (x : ℕ) : Prop :=
  (∃ i, (∀ j, x ∈ ClsSide.pkts s j → j = i) ∧ s.2.frame x = s.2.got x) ∨
    ∃ ops, Harmless ops (s.2.got x) (s.2.frame x) ∧
      ∀ j, x ∈ ClsSide.pkts s j → opAt pc s.1 j ∈ ops

/-- The ports do not get in each other's way: now, and so far. -/
structure Apart (pc : PortCapability) (s : ClsSide) : Prop where
  nodup : ∀ i, (ClsSide.pkts s i).Nodup
  safe : ∀ i, ∀ x ∈ ClsSide.pkts s i, Safe pc s x
  sent : ∀ e ∈ s.2.sent, e.frame = (pc.txOp e.portId).apply e.got

theorem opAt_of_emptied_eq {cmp' : ClsCompInfo} (h : cmp'.emptied = cmp.emptied) :
    opAt pc cmp' = opAt pc cmp := by
  funext i
  have hport : (cmp'.emptied.txPortsI i).ethdevPortId = (cmp.emptied.txPortsI i).ethdevPortId := by
    rw [h]
  exact congrArg pc.txOp hport

/-- Whoever is in the buffers has the operation of the port applied as if it had just
been received. -/
theorem Safe.apply_eq (h : Safe pc s x) (hx : x ∈ ClsSide.pkts s i) :
    (opAt pc s.1 i).apply (s.2.frame x) = (opAt pc s.1 i).apply (s.2.got x) := by
  rcases h with ⟨_, -, hframe⟩ | ⟨ops, hharmless, hops⟩
  · rw [hframe]
  · exact hharmless.same _ (hops i hx)

/-- The invariant depends on the buffers, the packets in them and what has been
sent. -/
theorem Apart.congr (h : Apart pc s) (hcmp : s'.1 = s.1)
    (hframe : ∀ i, ∀ x ∈ ClsSide.pkts s i, s'.2.frame x = s.2.frame x ∧ s'.2.got x = s.2.got x)
    (hsent : s'.2.sent = s.2.sent) : Apart pc s' := by
  have hpkts : ClsSide.pkts s' = ClsSide.pkts s := by
    unfold ClsSide.pkts
    rw [hcmp]
  refine ⟨fun i => hpkts ▸ h.nodup i, fun i x hx => ?_, hsent ▸ h.sent⟩
  rw [hpkts] at hx
  obtain ⟨hf, hg⟩ := hframe i x hx
  unfold Safe
  rw [hpkts, hcmp, hf, hg]
  exact h.safe i x hx

/-! ## Transmission -/

/-- What a burst on a tx port leaves in the mbufs and hands over. -/
theorem sppwkEthVlanTxBurst_frame (hsingle : pc.SingleTx) (portId : ℕ) (queueId : ℤ)
    {pkts : List ℕ} (hnodup : pkts.Nodup) (w : DataPath) :
    (sppwkEthVlanTxBurst pc portId queueId pkts w).2.got = w.got ∧
      (∀ x, (sppwkEthVlanTxBurst pc portId queueId pkts w).2.frame x = w.frame x ∨
        x ∈ pkts ∧ (sppwkEthVlanTxBurst pc portId queueId pkts w).2.frame x =
          (pc.txOp portId).apply (w.frame x)) ∧
      ∀ e ∈ (sppwkEthVlanTxBurst pc portId queueId pkts w).2.sent, e ∈ w.sent ∨
        ∃ x ∈ pkts, e = ⟨portId, queueId, x, (pc.txOp portId).apply (w.frame x), w.got x⟩ := by
  have hframe := frame_vlanOperation_tx hsingle portId hnodup w
  obtain ⟨n, w₁, used, hop, -, hedits, -⟩ := vlanOperation_edits pc portId .tx pkts w
  rw [hop] at hframe
  change ∀ x, w₁.frame x = if x ∈ pkts.take n then _ else _ at hframe
  have hcases (x : ℕ) : w₁.frame x = w.frame x ∨
      x ∈ pkts ∧ w₁.frame x = (pc.txOp portId).apply (w.frame x) := by
    rw [hframe]
    split
    · rename_i hx
      exact .inr ⟨List.mem_of_mem_take hx, rfl⟩
    · exact .inl rfl
  unfold sppwkEthVlanTxBurst
  simp only [hop]
  split
  · refine ⟨hedits.got, hcases, fun e he => .inl ?_⟩
    exact hedits.sent ▸ he
  refine ⟨hedits.got, hcases, fun e he => ?_⟩
  rcases List.mem_append.mp he with he | he
  · exact .inl (hedits.sent ▸ he)
  obtain ⟨x, hx, rfl⟩ := List.mem_map.mp he
  have hx : x ∈ pkts.take n := List.mem_of_mem_take hx
  refine .inr ⟨x, List.mem_of_mem_take hx, ?_⟩
  show Sent.mk _ _ _ (w₁.frame x) (w₁.got x) = _
  rw [hframe, if_pos hx, hedits.got]

theorem pkts_setTxPort (cmp : ClsCompInfo) (w : DataPath) (i j : ℕ) (pkts : List ℕ) :
    ClsSide.pkts (cmp.setTxPort i { cmp.txPortsI i with pkts := pkts }, w) j =
      if j = i then pkts else ClsSide.pkts (cmp, w) j := by
  unfold ClsSide.pkts ClsCompInfo.setTxPort
  split
  · rename_i h
    subst h
    dsimp only
    rw [Function.update_self]
  · rename_i h
    dsimp only
    rw [Function.update_of_ne h]

/-- The buffer that is transmitted is empty afterwards, and the others are as before. -/
theorem pkts_transmitPort (pc : PortCapability) (i j : ℕ) (s : ClsSide) :
    ClsSide.pkts (transmitPort pc i s) j = if j = i then [] else ClsSide.pkts s j :=
  pkts_setTxPort s.1 _ i j []

/-- What else a transmission leaves. -/
theorem transmitPort_frame (hsingle : pc.SingleTx) (hnodup : (ClsSide.pkts s i).Nodup) :
    (transmitPort pc i s).2.got = s.2.got ∧
      (∀ x, (transmitPort pc i s).2.frame x = s.2.frame x ∨
        x ∈ ClsSide.pkts s i ∧
          (transmitPort pc i s).2.frame x = (opAt pc s.1 i).apply (s.2.frame x)) ∧
      ∀ e ∈ (transmitPort pc i s).2.sent, e ∈ s.2.sent ∨
        ∃ x ∈ ClsSide.pkts s i, e = ⟨(s.1.txPortsI i).ethdevPortId, (s.1.txPortsI i).queueNo, x,
          (opAt pc s.1 i).apply (s.2.frame x), s.2.got x⟩ :=
  sppwkEthVlanTxBurst_frame hsingle _ _ hnodup s.2

/-- **A transmission keeps the ports apart.** -/
theorem Apart.transmitPort (hsingle : pc.SingleTx) (h : Apart pc s) (i : ℕ) :
    Apart pc (transmitPort pc i s) := by
  obtain ⟨hgot, hframe, hsent⟩ := transmitPort_frame hsingle (h.nodup i)
  have hop : opAt pc (Vf.transmitPort pc i s).1 = opAt pc s.1 :=
    opAt_of_emptied_eq (emptied_transmitPort pc i s)
  -- what is still queued was queued before, at another port than this one
  have hqueued {j y : ℕ} (hy : y ∈ ClsSide.pkts (Vf.transmitPort pc i s) j) :
      j ≠ i ∧ y ∈ ClsSide.pkts s j := by
    rw [pkts_transmitPort] at hy
    split at hy
    · simp at hy
    · exact ⟨‹_›, hy⟩
  refine ⟨fun j => ?_, fun j y hy => ?_, fun e he => ?_⟩
  · rw [pkts_transmitPort]
    split
    · exact List.nodup_nil
    · exact h.nodup j
  · obtain ⟨hji, hyj⟩ := hqueued hy
    rcases h.safe j y hyj with ⟨k, honly, hsame⟩ | ⟨ops, hharmless, hops⟩
    · have hjk : j = k := honly j hyj
      have hnot : y ∉ ClsSide.pkts s i := fun hyi => hji (hjk.trans (honly i hyi).symm)
      refine .inl ⟨k, fun l hl => honly l (hqueued hl).2, ?_⟩
      rw [hgot]
      exact ((hframe y).resolve_right fun hr => hnot hr.1).trans hsame
    refine .inr ⟨ops, ?_, fun l hl => hop ▸ hops l (hqueued hl).2⟩
    rw [hgot]
    rcases hframe y with hf | ⟨hyi, hf⟩
    · rwa [hf]
    · rw [hf]
      exact hharmless.apply (hops i hyi)
  · rcases hsent e he with he | ⟨y, hy, rfl⟩
    · exact h.sent e he
    · exact (h.safe i y hy).apply_eq hy

/-! ## Packets that are not in the buffers -/

/-- The packet is in no buffer. -/
def Unqueued (s : ClsSide) (x : ℕ) : Prop := ∀ i, x ∉ ClsSide.pkts s i

/-- Between the two states nothing has happened to packets outside the buffers other
than `x`. -/
structure Passes (x : ℕ) (s s' : ClsSide) : Prop where
  emptied : s'.1.emptied = s.1.emptied
  got : s'.2.got = s.2.got
  other : ∀ y, y ≠ x → Unqueued s y → Unqueued s' y ∧ s'.2.frame y = s.2.frame y

theorem Passes.refl (x : ℕ) (s : ClsSide) : Passes x s s :=
  ⟨rfl, rfl, fun _ _ h => ⟨h, rfl⟩⟩

theorem Passes.trans {s₁ s₂ : ClsSide} (h₁ : Passes x s s₁) (h₂ : Passes x s₁ s₂) :
    Passes x s s₂ := by
  refine ⟨h₂.emptied.trans h₁.emptied, h₂.got.trans h₁.got, fun y hy hun => ?_⟩
  obtain ⟨hun₁, hf₁⟩ := h₁.other y hy hun
  obtain ⟨hun₂, hf₂⟩ := h₂.other y hy hun₁
  exact ⟨hun₂, hf₂.trans hf₁⟩

theorem transmitPort_unqueued (hsingle : pc.SingleTx) (hnodup : (ClsSide.pkts s i).Nodup)
    (hx : Unqueued s x) :
    Unqueued (transmitPort pc i s) x ∧ (transmitPort pc i s).2.frame x = s.2.frame x := by
  refine ⟨fun j hj => ?_, ?_⟩
  · rw [pkts_transmitPort] at hj
    split at hj
    · simp at hj
    · exact hx j hj
  · exact ((transmitPort_frame hsingle hnodup).2.1 x).resolve_right fun h => hx i h.1

/-- The side with a packet at the end of a buffer. -/
def put (x : ℕ) (s : ClsSide) (i : ℕ) : ClsSide :=
  (s.1.setTxPort i { s.1.txPortsI i with pkts := ClsSide.pkts s i ++ [x] }, s.2)

theorem pushPacket_eq (pc : PortCapability) (x : ℕ) (s : ClsSide) (i : ℕ) :
    pushPacket pc x s i =
      if (ClsSide.pkts s i ++ [x]).length = maxPktBurst then transmitPort pc i (put x s i)
      else put x s i := rfl

theorem mem_pkts_put {y j : ℕ} :
    y ∈ ClsSide.pkts (put x s i) j ↔ y ∈ ClsSide.pkts s j ∨ j = i ∧ y = x := by
  unfold put
  rw [pkts_setTxPort]
  split
  · rename_i h
    subst h
    simp
  · rename_i h
    simp [h]

theorem opAt_put : opAt pc (put x s i).1 = opAt pc s.1 :=
  opAt_of_emptied_eq (s.1.emptied_setTxPort i _)

theorem Apart.nodup_put (h : Apart pc s) (hx : x ∉ ClsSide.pkts s i) (j : ℕ) :
    (ClsSide.pkts (put x s i) j).Nodup := by
  unfold put
  rw [pkts_setTxPort]
  split
  · rw [← List.concat_eq_append]
    exact (h.nodup i).concat hx
  · exact h.nodup j

theorem Apart.put (h : Apart pc s) (hx : x ∉ ClsSide.pkts s i) (hsafe : Safe pc (put x s i) x) :
    Apart pc (put x s i) := by
  refine ⟨h.nodup_put hx, fun j y hy => ?_, h.sent⟩
  rcases eq_or_ne y x with rfl | hyx
  · exact hsafe
  have hmem {k : ℕ} (hk : y ∈ ClsSide.pkts (Vf.put x s i) k) : y ∈ ClsSide.pkts s k :=
    (mem_pkts_put.mp hk).resolve_right fun hr => hyx hr.2
  rcases h.safe j y (hmem hy) with ⟨k, honly, hsame⟩ | ⟨ops, hharmless, hops⟩
  · exact .inl ⟨k, fun l hl => honly l (hmem hl), hsame⟩
  · refine .inr ⟨ops, hharmless, fun l hl => ?_⟩
    rw [opAt_put]
    exact hops l (hmem hl)

section

variable (hsingle : pc.SingleTx)
include hsingle

/-- **Queuing a packet** on a port keeps the ports apart, if it is safe there. -/
theorem Apart.pushPacket (h : Apart pc s) (hx : x ∉ ClsSide.pkts s i)
    (hsafe : Safe pc (Vf.put x s i) x) : Apart pc (pushPacket pc x s i) := by
  rw [pushPacket_eq]
  split
  · exact (h.put hx hsafe).transmitPort hsingle i
  · exact h.put hx hsafe

theorem pushPacket_passes (h : Apart pc s) (hx : x ∉ ClsSide.pkts s i) :
    Passes x s (pushPacket pc x s i) := by
  have hput {y : ℕ} (hy : y ≠ x) (hun : Unqueued s y) : Unqueued (put x s i) y := by
    intro j hj
    rcases mem_pkts_put.mp hj with hj | ⟨-, rfl⟩
    · exact hun j hj
    · exact hy rfl
  have hnodup := h.nodup_put hx i
  refine ⟨emptied_pushPacket pc x s i, ?_, fun y hy hun => ?_⟩
  · rw [pushPacket_eq]
    split
    · exact (transmitPort_frame hsingle hnodup).1
    · rfl
  · rw [pushPacket_eq]
    split
    · exact transmitPort_unqueued hsingle hnodup (hput hy hun)
    · exact ⟨hput hy hun, rfl⟩

/-- Where the packet is afterwards, and what has become of it. -/
theorem pushPacket_self (h : Apart pc s) (hx : x ∉ ClsSide.pkts s i) :
    (∀ j, x ∈ ClsSide.pkts (pushPacket pc x s i) j → x ∈ ClsSide.pkts s j ∨ j = i) ∧
      ((pushPacket pc x s i).2.frame x = s.2.frame x ∨
        (pushPacket pc x s i).2.frame x = (opAt pc s.1 i).apply (s.2.frame x)) := by
  have hnodup := h.nodup_put hx i
  rw [pushPacket_eq]
  split
  · refine ⟨fun j hj => ?_, ?_⟩
    · rw [pkts_transmitPort] at hj
      split at hj
      · simp at hj
      · exact (mem_pkts_put.mp hj).imp_right And.left
    · rw [← opAt_put (x := x) (i := i)]
      exact ((transmitPort_frame hsingle hnodup).2.1 x).imp_right And.right
  · exact ⟨fun j hj => (mem_pkts_put.mp hj).imp_right And.left, .inl rfl⟩

/-! ## Classification -/

/-- Queuing a packet on several ports.  All their operations are known before the first
buffer goes out. -/
theorem Apart.foldl_pushPacket (h : Apart pc s) (hharmless : Harmless ops (s.2.got x) (s.2.frame x))
    (hqueued : ∀ j, x ∈ ClsSide.pkts s j → opAt pc s.1 j ∈ ops) (hnodup : ports.Nodup)
    (hports : ∀ j ∈ ports, x ∉ ClsSide.pkts s j ∧ opAt pc s.1 j ∈ ops) :
    Apart pc (ports.foldl (Vf.pushPacket pc x) s) ∧
      Passes x s (ports.foldl (Vf.pushPacket pc x) s) := by
  induction ports generalizing s with
  | nil => exact ⟨h, Passes.refl x s⟩
  | cons i ports ih =>
    obtain ⟨hi, hrest⟩ := List.nodup_cons.mp hnodup
    obtain ⟨hxi, hopi⟩ := hports i List.mem_cons_self
    have hop : opAt pc (Vf.pushPacket pc x s i).1 = opAt pc s.1 :=
      opAt_of_emptied_eq (emptied_pushPacket pc x s i)
    have hsafe : Safe pc (Vf.put x s i) x := by
      refine .inr ⟨ops, hharmless, fun j hj => ?_⟩
      rw [opAt_put]
      rcases mem_pkts_put.mp hj with hj | ⟨rfl, -⟩
      · exact hqueued j hj
      · exact hopi
    have hpass := pushPacket_passes hsingle h hxi
    obtain ⟨hwhere, hframe⟩ := pushPacket_self hsingle h hxi
    rw [List.foldl_cons]
    obtain ⟨hapart, hpass'⟩ := ih (s := Vf.pushPacket pc x s i) (h.pushPacket hsingle hxi hsafe)
      (by
        rw [hpass.got]
        rcases hframe with hf | hf
        · rwa [hf]
        · rw [hf]
          exact hharmless.apply hopi)
      (by
        intro j hj
        rw [hop]
        rcases hwhere j hj with hj | rfl
        · exact hqueued j hj
        · exact hopi)
      hrest
      (by
        intro j hj
        rw [hop]
        obtain ⟨hxj, hopj⟩ := hports j (List.mem_cons_of_mem i hj)
        refine ⟨fun hmem => ?_, hopj⟩
        rcases hwhere j hmem with hmem | rfl
        · exact hxj hmem
        · exact hi hj)
    exact ⟨hapart, hpass.trans hpass'⟩

/-- **Delivering a packet** that has just been received keeps the ports apart, if their
operations are compatible. -/
theorem Apart.deliver (h : Apart pc s)
    (hun : Unqueued s x) (hframe : s.2.frame x = s.2.got x) (hnodup : ports.Nodup)
    (hcompat : Compatible (s.2.got x) (ports.map (opAt pc s.1))) :
    Apart pc (deliver pc x ports s) ∧ Passes x s (deliver pc x ports s) := by
  -- neither `rte_pktmbuf_free` nor `rte_mbuf_refcnt_update` touches a packet
  have hcount (n : ℤ) : Apart pc (s.1, s.2.refcntUpdate x n) :=
    h.congr rfl (fun _ _ _ => ⟨rfl, rfl⟩) rfl
  match ports, hnodup, hcompat with
  | [], _, _ =>
    exact ⟨h.congr rfl (fun _ _ _ => ⟨rfl, rfl⟩) rfl, rfl, rfl, fun y _ hy => ⟨hy, rfl⟩⟩
  | [i], _, _ =>
    have hsafe : Safe pc (Vf.put x (s.1, s.2.refcntUpdate x 0) i) x := by
      refine .inl ⟨i, fun j hj => ?_, hframe⟩
      rcases mem_pkts_put.mp hj with hj | ⟨rfl, -⟩
      · exact absurd hj (hun j)
      · rfl
    have hpass := pushPacket_passes hsingle (hcount 0) (hun i)
    exact ⟨(hcount 0).pushPacket hsingle (hun i) hsafe, hpass.emptied, hpass.got, hpass.other⟩
  | i :: j :: rest, hnodup, hcompat =>
    have hharmless := hcompat.harmless (by simp)
    have hmany := (hcount (((i :: j :: rest).length : ℤ) - 1)).foldl_pushPacket (x := x) hsingle
      (by
        show Harmless _ (s.2.got x) (s.2.frame x)
        rw [hframe]
        exact hharmless)
      (fun k hk => absurd hk (hun k)) hnodup
      (fun k hk => ⟨hun k, List.mem_map_of_mem hk⟩)
    exact ⟨hmany.1, hmany.2.emptied, hmany.2.got, hmany.2.other⟩

end

/-- The ports that a packet goes to have compatible operations. -/
def SharesWell (pc : PortCapability) (tx : List PortInfo) (cmp : ClsCompInfo) (f : Frame) : Prop :=
  Compatible f ((destinations tx (getVid f) f.dAddr).map (opAt pc cmp))

instance (pc : PortCapability) (tx : List PortInfo) (cmp : ClsCompInfo) (f : Frame) :
    Decidable (SharesWell pc tx cmp f) := inferInstanceAs (Decidable (Compatible _ _))

/-- **A burst** keeps the ports apart, if its packets have just been received. -/
theorem Apart.classifyRxPackets (hsingle : pc.SingleTx) (hattrs : ∀ port ∈ tx, EntryOk port)
    (hlen : tx.length < 2 ^ 15) {rxPkts : List ℕ} (h : Apart pc s) (htabled : Tabled tx s.1)
    (hnodup : rxPkts.Nodup) (hrx : ∀ y ∈ rxPkts, Unqueued s y ∧ s.2.frame y = s.2.got y ∧
      SharesWell pc tx s.1 (s.2.got y)) :
    Apart pc (classifyRxPackets pc rxPkts s) := by
  unfold Vf.classifyRxPackets
  induction rxPkts generalizing s with
  | nil => exact h
  | cons y rest ih =>
    obtain ⟨hy, hrest⟩ := List.nodup_cons.mp hnodup
    obtain ⟨hun, hframe, hshare⟩ := hrx y List.mem_cons_self
    have hround := classifyPacket_eq htabled hattrs hlen pc s.2 y
    rw [hframe] at hround
    obtain ⟨hapart, hpass⟩ := h.deliver hsingle hun hframe (nodup_destinations tx _ _) hshare
    rw [List.foldl_cons]
    have hround : classifyPacket pc s y = _ := hround
    rw [hround]
    refine ih hapart (htabled.of_emptied_eq hpass.emptied) hrest fun z hz => ?_
    obtain ⟨hunz, hframez, hsharez⟩ := hrx z (List.mem_cons_of_mem y hz)
    obtain ⟨hunz', hsame⟩ := hpass.other z (fun hzy => hy (hzy ▸ hz)) hunz
    refine ⟨hunz', ?_, ?_⟩
    · rwa [hsame, hpass.got]
    · unfold SharesWell
      rwa [hpass.got, opAt_of_emptied_eq hpass.emptied]

/-! ## Reception -/

theorem foldl_update_of_not_mem (hx : x ∉ burst.map Prod.fst) (frame : ℕ → Frame) :
    burst.foldl (fun frame p => Function.update frame p.1 p.2) frame x = frame x := by
  induction burst generalizing frame with
  | nil => rfl
  | cons p rest ih =>
    rw [List.map_cons, List.mem_cons, not_or] at hx
    rw [List.foldl_cons, ih hx.2, Function.update_of_ne hx.1]

theorem foldl_update_of_mem (hnodup : (burst.map Prod.fst).Nodup)
    {p : ℕ × Frame} (hp : p ∈ burst) (frame : ℕ → Frame) :
    burst.foldl (fun frame p => Function.update frame p.1 p.2) frame p.1 = p.2 := by
  induction burst generalizing frame with
  | nil => cases hp
  | cons q rest ih =>
    rw [List.map_cons, List.nodup_cons] at hnodup
    rw [List.foldl_cons]
    rcases List.mem_cons.mp hp with rfl | hp
    · rw [foldl_update_of_not_mem hnodup.1, Function.update_self]
    · exact ih hnodup.2 hp _

/-- The burst that `rte_eth_rx_burst` is going to deliver. -/
def nextBurst (a : Answers) : List (ℕ × Frame) := (a.rxBurst.headD []).take maxPktBurst

/-- **What `sppwk_eth_vlan_rx_burst` delivers**: packets of the burst with the VLAN
operation of the rx port applied.  Nothing else changes. -/
theorem sppwkEthVlanRxBurst_frame (pc : PortCapability) (portId : ℕ) (w : DataPath)
    (hnodup : ((nextBurst w.answers).map Prod.fst).Nodup) {r : List ℕ × DataPath}
    (hr : sppwkEthVlanRxBurst pc portId w = r) :
    r.1.Nodup ∧
      (∀ x ∈ r.1, ∃ p ∈ nextBurst w.answers, p.1 = x ∧ r.2.frame x = r.2.got x ∧
        r.2.got x = vlanEdit pc portId .rx p.2) ∧
      (∀ x, x ∉ (nextBurst w.answers).map Prod.fst →
        r.2.frame x = w.frame x ∧ r.2.got x = w.got x) ∧
      r.2.sent = w.sent := by
  have hstored (x : ℕ) : w.ethRxBurst.2.frame x =
      (nextBurst w.answers).foldl (fun frame p => Function.update frame p.1 p.2) w.frame x := rfl
  have hpkts : w.ethRxBurst.1 = (nextBurst w.answers).map Prod.fst := rfl
  unfold sppwkEthVlanRxBurst at hr
  simp only at hr
  split at hr
  · subst hr
    refine ⟨List.nodup_nil, by simp, fun x hx => ⟨?_, rfl⟩, rfl⟩
    rw [hstored, foldl_update_of_not_mem hx]
  have hframe := frame_vlanOperation pc portId .rx (hpkts ▸ hnodup) w.ethRxBurst.2
  obtain ⟨n, w₁, used, hop, -, hedits, -⟩ :=
    vlanOperation_edits pc portId .rx w.ethRxBurst.1 w.ethRxBurst.2
  rw [hop] at hr hframe
  subst hr
  change ∀ x, (x ∈ w.ethRxBurst.1.take n → w₁.frame x = _) ∧ (_ → w₁.frame x = _) at hframe
  refine ⟨hnodup.sublist (List.take_sublist n _), fun x hx => ?_, fun x hx => ?_, hedits.sent⟩
  · have hmem : x ∈ (nextBurst w.answers).map Prod.fst := List.mem_of_mem_take hx
    obtain ⟨p, hp, rfl⟩ := List.mem_map.mp hmem
    have hgot : w₁.frame p.1 = vlanEdit pc portId .rx p.2 := by
      rw [(hframe p.1).1 hx, hstored, foldl_update_of_mem hnodup hp]
    have hif : (if p.1 ∈ w.ethRxBurst.1 then w₁.frame p.1 else w₁.got p.1) = w₁.frame p.1 :=
      if_pos (hpkts ▸ hmem)
    exact ⟨p, hp, rfl, hif.symm, hif.trans hgot⟩
  · have hx' : x ∉ w.ethRxBurst.1 := hpkts ▸ hx
    have hif : (if x ∈ w.ethRxBurst.1 then w₁.frame x else w₁.got x) = w₁.got x := if_neg hx'
    refine ⟨?_, hif.trans (congrFun hedits.got x)⟩
    show w₁.frame x = w.frame x
    rw [(hframe x).2 hx', hstored, foldl_update_of_not_mem hx]

/-- The burst is delivered in mbufs that are in nobody's hands, each once, and its
packets may be shared by the ports they go to. -/
structure BurstOk (pc : PortCapability) (tx : List PortInfo) (s : ClsSide) : Prop where
  nodup : ((nextBurst s.2.answers).map Prod.fst).Nodup
  fresh : ∀ p ∈ nextBurst s.2.answers, Unqueued s p.1
  shares : ∀ p ∈ nextBurst s.2.answers,
    SharesWell pc tx s.1 (vlanEdit pc s.1.rxPortI.ethdevPortId .rx p.2)

theorem Apart.receivePackets (hsingle : pc.SingleTx) (hattrs : ∀ port ∈ tx, EntryOk port)
    (hlen : tx.length < 2 ^ 15) (h : Apart pc s) (htabled : Tabled tx s.1)
    (hburst : BurstOk pc tx s) : Apart pc (receivePackets pc s) := by
  unfold Vf.receivePackets
  simp only
  generalize hr : sppwkEthVlanRxBurst pc s.1.rxPortI.ethdevPortId s.2 = r
  obtain ⟨hnodup, hin, hout, hsent⟩ := sppwkEthVlanRxBurst_frame pc _ s.2 hburst.nodup hr
  have hqueued (j : ℕ) (y : ℕ) (hy : y ∈ ClsSide.pkts s j) :
      y ∉ (nextBurst s.2.answers).map Prod.fst := by
    intro hmem
    obtain ⟨p, hp, rfl⟩ := List.mem_map.mp hmem
    exact hburst.fresh p hp j hy
  have hapart : Apart pc (s.1, r.2) := h.congr rfl (fun j y hy => hout y (hqueued j y hy)) hsent
  refine hapart.classifyRxPackets hsingle hattrs hlen htabled hnodup fun y hy => ?_
  obtain ⟨p, hp, rfl, hframe, hgot⟩ := hin y hy
  refine ⟨hburst.fresh p hp, hframe, ?_⟩
  show SharesWell pc tx s.1 (r.2.got p.1)
  rw [hgot]
  exact hburst.shares p hp

/-! ## Runs -/

theorem rxBurst_transmitPort (pc : PortCapability) (i : ℕ) (s : ClsSide) :
    (transmitPort pc i s).2.answers.rxBurst = s.2.answers.rxBurst := by
  obtain ⟨n, m, w₁, used, txBurst, hsend, -, -, hedits, -⟩ := sppwkEthVlanTxBurst_edits pc
    (s.1.txPortsI i).ethdevPortId (s.1.txPortsI i).queueNo (s.1.txPortsI i).pkts s.2
  unfold transmitPort transmitPackets
  simp only [hsend]
  exact hedits.rxBurst

/-- Draining the buffers keeps the ports apart; what was in no buffer is in none, and
the packets to be received are still to come. -/
theorem Apart.transmitAllPacket (hsingle : pc.SingleTx) (h : Apart pc s) :
    Apart pc (transmitAllPacket pc s) ∧
      (∀ y, Unqueued s y → Unqueued (transmitAllPacket pc s) y) ∧
      (transmitAllPacket pc s).2.answers.rxBurst = s.2.answers.rxBurst := by
  unfold Vf.transmitAllPacket
  generalize List.range s.1.nofTxPorts = is
  induction is generalizing s with
  | nil => exact ⟨h, fun _ => id, rfl⟩
  | cons i is ih =>
    rw [List.foldl_cons]
    split
    · obtain ⟨hapart, hun, hrx⟩ := ih (h.transmitPort hsingle i)
      exact ⟨hapart, fun y hy => hun y (transmitPort_unqueued hsingle (h.nodup i) hy).1,
        hrx.trans (rxBurst_transmitPort pc i s)⟩
    · exact ih h

/-- One turn of the worker: whether it drains, and what DPDK answers. -/
structure Turn where
  drain : Bool
  answers : Answers

/-- An iteration of `classify_packets` with the answers of the turn. -/
def ClsWorker.turn (s : ClsWorker) (e : Turn) : ClsWorker :=
  classifyPackets e.drain { s with data.answers := e.answers }

/-- A classifier at work, between two updates.  It starts on the side that an update
has built, with nothing sent. -/
def classifierTurns (pc : PortCapability) (E : HashEnv) (name : CString)
    (rx tx : List PortInfo) : System ClsWorker Turn where
  init s := s.pc = pc ∧ s.mng.refIndex ≠ s.mng.updIndex ∧ s.data.sent = [] ∧
    ∃ cmp, initComponentInfo E rx tx .zero = (.ok, cmp) ∧ s.mng.ref = { cmp with name := name }
  step s e s' := s' = s.turn e

/-- The packets of the turn may be shared by the ports they go to. -/
def TurnOk (tx : List PortInfo) (s : ClsWorker) (e : Turn) : Prop :=
  BurstOk s.pc tx (s.mng.ref, { s.data with answers := e.answers })

theorem unqueued_initComponentInfo {tx : List PortInfo}
    (hok : initComponentInfo E rx tx .zero = (.ok, cmp)) (name : CString) (w : DataPath) (x : ℕ) :
    Unqueued ({ cmp with name := name }, w) x := by
  intro i hx
  have hempty := pkts_initComponentInfo hok (fun _ => rfl) i
  change x ∈ (cmp.txPortsI i).pkts at hx
  rw [hempty] at hx
  cases hx

/-- What holds throughout a run. -/
structure WorkerApart (pc : PortCapability) (tx : List PortInfo) (s : ClsWorker) : Prop where
  pc_eq : s.pc = pc
  sides : s.mng.refIndex ≠ s.mng.updIndex
  tabled : Tabled tx s.mng.ref
  apart : Apart pc s.ref

variable {s : ClsWorker}

/-- **One turn.** -/
theorem WorkerApart.turn (hsingle : pc.SingleTx) (hattrs : ∀ port ∈ tx, EntryOk port)
    (hlen : tx.length < 2 ^ 15) {e : Turn} (h : WorkerApart pc tx s)
    (hok : TurnOk tx s e) : WorkerApart pc tx (s.turn e) := by
  obtain ⟨rfl, hsides, htabled, hapart⟩ := h
  unfold ClsWorker.turn classifyPackets changeClassifierIndex
  simp only [hsides, if_false]
  set s₁ : ClsWorker := { s with data.answers := e.answers } with hs₁
  have hapart₁ : Apart s.pc s₁.ref := hapart.congr rfl (fun _ _ _ => ⟨rfl, rfl⟩) rfl
  split
  · set t := if e.drain then transmitAllPacket s.pc s₁.ref else s₁.ref with ht
    have hdrain : Apart s.pc t ∧ t.1.emptied = s.mng.ref.emptied ∧ BurstOk s.pc tx t := by
      rw [ht]
      split
      · obtain ⟨hapart', hun, hrx⟩ := hapart₁.transmitAllPacket hsingle
        have hempty := emptied_transmitAllPacket s.pc s₁.ref
        have hnext : nextBurst (transmitAllPacket s.pc s₁.ref).2.answers = nextBurst e.answers := by
          unfold nextBurst
          rw [hrx]
          rfl
        have hport := ClsCompInfo.rxPortI_of_emptied_eq hempty
        refine ⟨hapart', hempty, ?_, ?_, ?_⟩
        · rw [hnext]
          exact hok.nodup
        · rw [hnext]
          exact fun p hp => hun p.1 (hok.fresh p hp)
        rw [hnext, hport]
        unfold SharesWell
        rw [opAt_of_emptied_eq hempty]
        exact hok.shares
      · exact ⟨hapart₁, rfl, hok⟩
    obtain ⟨hapart₂, hempty, hburst⟩ := hdrain
    have htabled₂ := htabled.of_emptied_eq hempty
    have hreceive := hapart₂.receivePackets hsingle hattrs hlen htabled₂ hburst
    have hset := s₁.ref_setRef (receivePackets s.pc t)
    refine ⟨rfl, hsides, ?_, ?_⟩
    · have hcmp : (s₁.setRef (receivePackets s.pc t)).mng.ref = (receivePackets s.pc t).1 :=
        congrArg Prod.fst hset
      rw [hcmp]
      exact htabled₂.of_emptied_eq (emptied_receivePackets s.pc t)
    · rwa [hset]
  · exact ⟨rfl, hsides, htabled, hapart₁⟩

theorem workerApart_init {name : CString}
    (h : (classifierTurns pc E name rx tx).init s) : WorkerApart pc tx s := by
  obtain ⟨hpc, hsides, hsent, cmp, hok, href⟩ := h
  have hbuilt := (built_of_initComponentInfo (fun _ => rfl) hok).1
  have hun (x : ℕ) : Unqueued s.ref x := by
    unfold ClsWorker.ref
    rw [href]
    exact unqueued_initComponentInfo hok name s.data x
  have hnil (i : ℕ) : ClsSide.pkts s.ref i = [] :=
    List.eq_nil_iff_forall_not_mem.mpr fun x => hun x i
  refine ⟨hpc, hsides, ?_, fun i => ?_, fun i x hx => absurd hx (hun x i), ?_⟩
  · rw [href]
    exact ⟨hbuilt.unregistered, hbuilt.registered⟩
  · rw [hnil]
    exact List.nodup_nil
  intro e he
  change e ∈ s.data.sent at he
  rw [hsent] at he
  cases he

/-- The packet has been handed over on the tx port. -/
def SentOn (e : Sent) (port : PortInfo) : Prop :=
  e.portId = port.ethdev % 2 ^ 16 ∧ e.queueId = port.queueNo

instance (e : Sent) (port : PortInfo) : Decidable (SentOn e port) :=
  inferInstanceAs (Decidable (_ ∧ _))

/-- **Tx ports do not interfere**, in any run in which the packets of each turn may be
shared by the ports they go to, on tables that have the ports' own operations: what is
handed over on a port is the packet that was received, with the port's own operation
applied. -/
theorem sent_eq_of_run (P : Platform) (pc : PortCapability) (hsingle : pc.SingleTx) (E : HashEnv)
    (name : CString) (rx tx : List PortInfo) (hown : OwnOps pc tx)
    (hattrs : ∀ port ∈ tx, EntryOk port) (hlen : tx.length ≤ P.maxQueuesPerPort)
    (h : List (ClsWorker × Turn)) (s : ClsWorker)
    (hrun : Run (classifierTurns pc E name rx tx) h s) (hG : Guarded (TurnOk tx) h) :
    ∀ e ∈ s.data.sent, ∀ port ∈ tx, SentOn e port → e.frame = (ownOp port).apply e.got := by
  have hbound : tx.length < 2 ^ 15 := hlen.trans_lt P.maxQueuesPerPort_lt
  have hinv : WorkerApart pc tx s := hrun.invariant (I := WorkerApart pc tx)
    (fun _ => workerApart_init)
    (fun s e s' hs hok hstep => by
      have hstep : s' = s.turn e := hstep
      rw [hstep]
      exact hs.turn hsingle hattrs hbound hok) hG
  intro e he port hport hon
  rw [hinv.apart.sent e he, hon.1, hown port hport]

/-! ## Two ports that share a broadcast -/

/-- A tx port for untagged packets with a VLAN attribute. -/
def sharingPort (ethdev : ℤ) (attr : PortAttrs) : PortInfo :=
  { clsPort ethdev 0xfff (BitVec.ofInt 64 (ethdev + 0x40)) with
    portAttrs := Function.update (fun _ => .zero) 0 attr }

/-- An attribute that adds the tag of a VLAN. -/
def addTagAttr (vid : ℤ) : PortAttrs := ⟨.addVlan, .tx, ⟨vid, 0, 0⟩⟩

/-- The port tables for an rx port and some tx ports. -/
def capabilityOf (rx : PortInfo) (tx : List PortInfo) : PortCapability :=
  (tx.foldl (updatePortAttrs .tx) (updatePortAttrs .rx .init rx)).swapRef

/-- A classifier that has been built for some tx ports and has not yet received
anything. -/
def freshClassifier (rx : PortInfo) (tx : List PortInfo) : ClsWorker where
  pc := capabilityOf rx tx
  mng := ⟨fun _ => { (initComponentInfo .ample [rx] tx .zero).2 with name := [] }, 0, 1, true⟩
  data := .init ⟨0, 0, 0, []⟩ ⟨[], fun _ => [], []⟩

/-- An untagged broadcast. -/
def broadcast : Frame := ⟨BitVec.allOnes 48, 1, 0x800, []⟩

/-- One broadcast comes in, in mbuf 7. -/
def receiveTurn : Turn := ⟨false, ⟨[[(7, broadcast)]], fun _ => [], []⟩⟩

/-- The buffers are drained; the driver has room. -/
def drainTurn : Turn := ⟨true, ⟨[], fun _ => [], [1, 1]⟩⟩

/-- The two turns are a run. -/
theorem run_receive_drain (rx : PortInfo) (tx : List PortInfo)
    (hok : (initComponentInfo .ample [rx] tx .zero).1 = .ok) :
    Run (classifierTurns (capabilityOf rx tx) .ample [] [rx] tx)
      [((freshClassifier rx tx).turn receiveTurn, drainTurn), (freshClassifier rx tx, receiveTurn)]
      (((freshClassifier rx tx).turn receiveTurn).turn drainTurn) := by
  have hinit : (classifierTurns (capabilityOf rx tx) .ample [] [rx] tx).init
      (freshClassifier rx tx) :=
    ⟨rfl, (by decide : (0 : Side) ≠ 1), rfl, _, Prod.ext hok rfl, rfl⟩
  exact .snoc (.snoc (.start hinit) rfl) rfl

/-- The turns meet the condition if the broadcast may be shared. -/
theorem guarded_receive_drain (rx : PortInfo) (tx : List PortInfo)
    (hok : (initComponentInfo .ample [rx] tx .zero).1 = .ok)
    (hshares : SharesWell (freshClassifier rx tx).pc tx (freshClassifier rx tx).mng.ref
      (vlanEdit (freshClassifier rx tx).pc
        (freshClassifier rx tx).mng.ref.rxPortI.ethdevPortId .rx broadcast)) :
    Guarded (TurnOk tx)
      [((freshClassifier rx tx).turn receiveTurn, drainTurn),
        (freshClassifier rx tx, receiveTurn)] := by
  rw [guarded_cons, guarded_cons]
  refine ⟨⟨List.nodup_nil, by simp [nextBurst, drainTurn], by simp [nextBurst, drainTurn]⟩,
    ⟨List.nodup_singleton 7, fun p _ => ?_, fun p hp => ?_⟩, guarded_nil _⟩
  · exact unqueued_initComponentInfo (Prod.ext hok rfl) [] _ p.1
  · rwa [List.mem_singleton.mp hp]

/-- Two ports that add different tags. -/
def twoTags : List PortInfo := [sharingPort 1 (addTagAttr 100), sharingPort 2 (addTagAttr 200)]

theorem singleTx_twoTags : (capabilityOf (sharingPort 0 .zero) twoTags).SingleTx := by
  intro portId
  rcases portId with _ | _ | _ | portId <;> rfl

/-- Two ports that add different tags to one broadcast each send it with their own. -/
theorem sent_eq_of_run_two_tags :
    ∃ h s, Run (classifierTurns (capabilityOf (sharingPort 0 .zero) twoTags) .ample []
        [sharingPort 0 .zero] twoTags) h s ∧ Guarded (TurnOk twoTags) h ∧
      s.data.sent.map Sent.portId = [1, 2] ∧
      s.data.sent.map Sent.frame = [broadcast.addTag (cpuToBe16 100), broadcast.addTag (cpuToBe16 200)] ∧
      ∀ e ∈ s.data.sent, ∀ port ∈ twoTags, SentOn e port →
        e.frame = (ownOp port).apply e.got := by
  have hrun := run_receive_drain (sharingPort 0 .zero) twoTags rfl
  have hguard := guarded_receive_drain (sharingPort 0 .zero) twoTags rfl (by decide +kernel)
  exact ⟨_, _, hrun, hguard, by decide +kernel, by decide +kernel,
    sent_eq_of_run (.sample .vf) _ singleTx_twoTags .ample [] [sharingPort 0 .zero] twoTags
      (by decide +kernel) (by decide +kernel) (by decide +kernel) _ _ hrun hguard⟩

/-- A port that adds a tag, and one without a VLAN operation. -/
def tagAndNone : List PortInfo := [sharingPort 1 (addTagAttr 100), sharingPort 2 .zero]

/-- Two queues of one ethdev that add different tags. -/
def twoQueues : List PortInfo :=
  [sharingPort 1 (addTagAttr 100), { sharingPort 1 (addTagAttr 200) with queueNo := 1 }]

/-- The port without an operation sends the tag that the other has added; and of two queues of
one ethdev the second sends the tag of the first, though the operations are compatible. -/
theorem not_sent_eq_of_shared_broadcast :
    (∃ h s, Run (classifierTurns (capabilityOf (sharingPort 0 .zero) tagAndNone) .ample []
        [sharingPort 0 .zero] tagAndNone) h s ∧
      OwnOps (capabilityOf (sharingPort 0 .zero) tagAndNone) tagAndNone ∧
      ¬ ∀ e ∈ s.data.sent, ∀ port ∈ tagAndNone, SentOn e port →
        e.frame = (ownOp port).apply e.got) ∧
    ∃ h s, Run (classifierTurns (capabilityOf (sharingPort 0 .zero) twoQueues) .ample []
        [sharingPort 0 .zero] twoQueues) h s ∧ Guarded (TurnOk twoQueues) h ∧
      ¬ ∀ e ∈ s.data.sent, ∀ port ∈ twoQueues, SentOn e port →
        e.frame = (ownOp port).apply e.got :=
  ⟨⟨_, _, run_receive_drain (sharingPort 0 .zero) tagAndNone rfl, by decide +kernel,
      by decide +kernel⟩,
    _, _, run_receive_drain (sharingPort 0 .zero) twoQueues rfl,
    guarded_receive_drain (sharingPort 0 .zero) twoQueues rfl (by decide +kernel),
    by decide +kernel⟩

end SoftPatchPanel.Vf
