import SoftPatchPanel.Worker.DataTypes

/-!
# Ethernet frames and their VLAN tag

A frame is its `struct rte_ether_hdr` and the bytes behind it.  If the ether type is
that of a VLAN, the first four bytes behind the header are a `struct rte_vlan_hdr`:
the tag control information and the ether type of what follows.

`add_vlan_tag_one` and `del_vlan_tag_one` edit the tag of a packet where it lies.
What they make of a frame when they succeed is `Frame.addTag` and `Frame.delTag`.
Adding absorbs whatever was done to the tag before, and deleting absorbs an
addition; only deleting twice, or adding after a deletion, can show a second tag
that lay under the first (`Frame.NotStacked` rules it out).
-/

namespace SoftPatchPanel.Worker

/-- `RTE_ETHER_TYPE_VLAN`. -/
def etherTypeVlan : BitVec 16 := 0x8100#16

/-- A packet: the Ethernet header and what follows it.  An address is its six bytes,
the first byte lowest. -/
structure Frame where
  dAddr : BitVec 48
  sAddr : BitVec 48
  etherType : BitVec 16
  payload : List (BitVec 8)
  deriving DecidableEq

/-- The two bytes of a 16-bit number in network order. -/
def be16 (n : BitVec 16) : List (BitVec 8) := [n.extractLsb' 8 8, n.extractLsb' 0 8]

/-- The bytes of `vlan_tci`.  The port keeps them swapped already, so the low byte of
the number is the first in memory. -/
def tciBytes (tci : ℤ) : List (BitVec 8) := [BitVec.ofInt 8 tci, BitVec.ofInt 8 (tci / 256)]

namespace Frame

/-- The packet has a VLAN tag. -/
def tagged (f : Frame) : Bool := f.etherType = etherTypeVlan

/-- `eth_proto` of the VLAN header. -/
def ethProto (f : Frame) : BitVec 16 := f.payload.getD 2 0 ++ f.payload.getD 3 0

/-- `rte_is_multicast_ether_addr` of the destination. -/
def multicast (f : Frame) : Bool := f.dAddr.getLsbD 0

/-- What `add_vlan_tag_one` makes of a packet. -/
def addTag (tci : ℤ) (f : Frame) : Frame :=
  if f.tagged then { f with payload := tciBytes tci ++ f.payload.drop 2 }
  else { f with
    etherType := etherTypeVlan
    payload := tciBytes tci ++ (be16 f.etherType ++ f.payload) }

/-- What `del_vlan_tag_one` makes of a packet. -/
def delTag (f : Frame) : Frame :=
  if f.tagged then { f with etherType := f.ethProto, payload := f.payload.drop 4 } else f

/-- There is no second tag under the first, and if there is a first the packet is
long enough to hold it. -/
def NotStacked (f : Frame) : Prop :=
  f.tagged = true → f.ethProto ≠ etherTypeVlan ∧ 4 ≤ f.payload.length

instance (f : Frame) : Decidable f.NotStacked := inferInstanceAs (Decidable (_ → _))

variable {f : Frame}

/-! ## How the two operations compose -/

@[simp]
theorem tagged_addTag (t : ℤ) (f : Frame) : (f.addTag t).tagged = true := by
  unfold addTag
  split
  · assumption
  · simp [tagged]

theorem delTag_of_not_tagged (h : f.tagged = false) : f.delTag = f := by
  simp [delTag, h]

theorem tagged_delTag (h : f.NotStacked) : f.delTag.tagged = false := by
  cases hf : f.tagged with
  | false => rw [delTag_of_not_tagged hf, hf]
  | true =>
    have hdel : f.delTag.etherType = f.ethProto := by simp [delTag, hf]
    simpa [tagged, hdel] using (h hf).1

theorem be16_append (a b : BitVec 8) : be16 (a ++ b) = [a, b] := by
  simp only [be16, List.cons.injEq, and_true]
  constructor
  · ext i hi
    rw [BitVec.getElem_extractLsb', BitVec.getLsbD_append, if_neg (by omega)]
    simp [hi]
  · ext i hi
    rw [BitVec.getElem_extractLsb', BitVec.getLsbD_append, if_pos (by omega)]
    simp [hi]

theorem append_be16 (n : BitVec 16) : ((be16 n).getD 0 0 ++ (be16 n).getD 1 0 : BitVec 16) = n := by
  ext i hi
  simp only [be16, List.getD_cons_zero, List.getD_cons_succ, BitVec.getElem_append]
  split
  · rw [BitVec.getElem_extractLsb', Nat.zero_add, BitVec.getLsbD_eq_getElem]
  · rw [BitVec.getElem_extractLsb', Nat.add_sub_cancel' (by omega), BitVec.getLsbD_eq_getElem]

theorem ethProto_addTag (t : ℤ) (f : Frame) :
    (f.addTag t).ethProto = if f.tagged then f.ethProto else f.etherType := by
  cases hf : f.tagged with
  | false =>
    rw [← append_be16 f.etherType]
    simp [ethProto, addTag, hf, tciBytes, be16]
  | true => simp [ethProto, addTag, hf, tciBytes, List.getD_eq_getElem?_getD]

/-- Adding a tag overwrites the one added before. -/
theorem addTag_addTag (t u : ℤ) (f : Frame) : (f.addTag u).addTag t = f.addTag t := by
  rw [addTag, if_pos (tagged_addTag u f)]
  cases hf : f.tagged with
  | false | true => simp [addTag, hf, tciBytes]

/-- Deleting the tag undoes an addition, up to what deleting does to the packet
itself. -/
theorem delTag_addTag (t : ℤ) (f : Frame) : (f.addTag t).delTag = f.delTag := by
  rw [delTag, if_pos (tagged_addTag t f), ethProto_addTag]
  cases hf : f.tagged with
  | false =>
    rw [delTag_of_not_tagged hf]
    simp [addTag, hf, tciBytes, be16]
  | true => simp [addTag, delTag, hf, tciBytes, List.drop_drop]

/-- The inner ether type, as it lies behind the tag control information. -/
theorem be16_ethProto (hlen : 4 ≤ f.payload.length) :
    be16 f.ethProto ++ f.payload.drop 4 = f.payload.drop 2 := by
  rw [ethProto, be16_append]
  rcases hp : f.payload with _ | ⟨a, _ | ⟨b, _ | ⟨c, _ | ⟨d, rest⟩⟩⟩⟩
  · simp [hp] at hlen
  · simp [hp] at hlen
  · simp [hp] at hlen
  · simp [hp] at hlen
  · rfl

/-- A deletion before an addition makes no difference, unless it uncovers a second
tag. -/
theorem addTag_delTag (t : ℤ) (h : f.NotStacked) : f.delTag.addTag t = f.addTag t := by
  cases hf : f.tagged with
  | false => rw [delTag_of_not_tagged hf]
  | true =>
    have hbare := tagged_delTag h
    have hbytes := be16_ethProto (h hf).2
    have hdel : f.delTag = { f with etherType := f.ethProto, payload := f.payload.drop 4 } := by
      rw [delTag, if_pos hf]
    have htype : f.etherType = etherTypeVlan := by simpa [tagged] using hf
    rw [addTag, hbare, if_neg (by simp), addTag, if_pos hf, hdel]
    simp [hbytes, htype]

/-- The second deletion finds no tag, unless the first uncovers one. -/
theorem delTag_delTag (h : f.NotStacked) : f.delTag.delTag = f.delTag :=
  delTag_of_not_tagged (tagged_delTag h)

/-- A tag that is added is not on top of another one, if the packet had at most one
itself. -/
theorem NotStacked.addTag (h : f.NotStacked) (t : ℤ) : (f.addTag t).NotStacked := by
  intro _
  rw [ethProto_addTag]
  cases hf : f.tagged with
  | false =>
    refine ⟨by simpa [tagged] using hf, ?_⟩
    simp [Frame.addTag, hf, tciBytes, be16]
  | true =>
    refine ⟨by simpa using (h hf).1, ?_⟩
    have hlen := (h hf).2
    simp only [Frame.addTag, hf, if_true, tciBytes, List.cons_append, List.nil_append,
      List.length_cons, List.length_drop]
    omega

theorem NotStacked.delTag (h : f.NotStacked) : f.delTag.NotStacked := by
  intro hf
  rw [tagged_delTag h] at hf
  cases hf

end Frame

end SoftPatchPanel.Worker
