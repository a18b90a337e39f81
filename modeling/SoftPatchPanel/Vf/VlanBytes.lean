import SoftPatchPanel.Foundation.Memory
import SoftPatchPanel.Vf.Classify

/-!
# `port_capability.c`: the VLAN tag in the bytes of a packet

`add_vlan_tag_one` asks for four bytes in front of the packet, copies the Ethernet header
down and writes the tag behind it.  `del_vlan_tag_one` gives four bytes back and copies the
addresses up, as three words from the last to the first, since the two places overlap.  A
packet that has a tag already gets new tag control information and does not move.

Here an mbuf is its memory with an offset and a length, and the two functions work on the
bytes.  `addVlanTagOne_spec` and `delVlanTagOne_spec` say what they make of the packet as
a list of bytes, and everything about tags follows from that: the laws in `tag_laws`, and
that `Frame.addTag` and `Frame.delTag`, with which the bursts are modelled, are what the
functions do (`bytes_addTag`, `bytes_delTag`).

The copy of the header is a `memmove`.  The checksum that is written behind the packet is an
arbitrary function of the packet.
-/

namespace SoftPatchPanel.Vf

open Worker Memory

/-- A `struct rte_mbuf` of one segment: the buffer, and where the packet lies in it.  The
offset and the length are 16-bit numbers, and so is the size of the buffer. -/
structure Mbuf where
  mem : ℕ → BitVec 8
  dataOff : ℕ
  dataLen : ℕ
  fits : dataOff + dataLen < 2 ^ 16

namespace Mbuf

/-- The packet. -/
def frame (pkt : Mbuf) : List (BitVec 8) := load pkt.mem pkt.dataOff pkt.dataLen

/-- `rte_pktmbuf_prepend`. -/
def prepend (len : ℕ) (pkt : Mbuf) : Option Mbuf :=
  if h : len ≤ pkt.dataOff then
    some ⟨pkt.mem, pkt.dataOff - len, pkt.dataLen + len, by have := pkt.fits; omega⟩
  else none

/-- `rte_pktmbuf_adj`. -/
def adj (len : ℕ) (pkt : Mbuf) : Option Mbuf :=
  if h : len ≤ pkt.dataLen then
    some ⟨pkt.mem, pkt.dataOff + len, pkt.dataLen - len, by have := pkt.fits; omega⟩
  else none

/-- `g_vlan_tpid`, as it lies in memory. -/
def vlanTpid : List (BitVec 8) := be16 etherTypeVlan

/-- The test of `ether_type`. -/
def tagged (pkt : Mbuf) : Bool := load pkt.mem (pkt.dataOff + 12) 2 = vlanTpid

/-- A 32-bit number, the low byte first. -/
def le32 (n : BitVec 32) : List (BitVec 8) :=
  [n.extractLsb' 0 8, n.extractLsb' 8 8, n.extractLsb' 16 8, n.extractLsb' 24 8]

variable (crc : List (BitVec 8) → BitVec 32) {k : ℕ} {addrs rest : List (BitVec 8)}

/-- `set_fcs_packet`. -/
def setFcsPacket (pkt : Mbuf) : Mbuf :=
  { pkt with mem := store (pkt.dataOff + pkt.dataLen) (le32 (crc pkt.frame)) pkt.mem }

/-- The end of `add_vlan_tag_one`, with the VLAN header behind the Ethernet header. -/
def setTci (tag : VlanTag) (pkt : Mbuf) : Mbuf :=
  setFcsPacket crc { pkt with mem := store (pkt.dataOff + 14) (tciBytes tag.tci) pkt.mem }

/-- `add_vlan_tag_one`. -/
def addVlanTagOne (tag : VlanTag) (pkt : Mbuf) : Ret × Mbuf :=
  let oldEther := pkt.dataOff
  if pkt.tagged then (.ok, setTci crc tag pkt)
  else
    match pkt.prepend 4 with
    | none => (.ng, pkt)
    | some pkt =>
      let newEther := pkt.dataOff
      let mem := move newEther oldEther 14 pkt.mem
      -- `vlan->eth_proto = new_ether->ether_type`
      let mem := store (newEther + 16) (load mem (newEther + 12) 2) mem
      let mem := store (newEther + 12) vlanTpid mem
      (.ok, setTci crc tag { pkt with mem := mem })

/-- `del_vlan_tag_one`. -/
def delVlanTagOne (pkt : Mbuf) : Ret × Mbuf :=
  let old := pkt.dataOff
  if pkt.tagged then
    match pkt.adj 4 with
    | none => (.ng, pkt)
    | some pkt =>
      let new := pkt.dataOff
      let mem := move (new + 8) (old + 8) 4 pkt.mem
      let mem := move (new + 4) (old + 4) 4 mem
      let mem := move new old 4 mem
      let mem := store old [0, 0, 0, 0] mem
      (.ok, setFcsPacket crc { pkt with mem := mem })
  else (.ok, pkt)

/-- `vlan_tci` of the VLAN header, in host order. -/
def vlanTci (pkt : Mbuf) : ℕ :=
  (pkt.mem (pkt.dataOff + 14)).toNat * 256 + (pkt.mem (pkt.dataOff + 15)).toNat

/-- `get_vid`. -/
def getVid (pkt : Mbuf) : ℕ := if pkt.tagged then pkt.vlanTci % 4096 else vlanUntaggedVid

/-- The priority in the tag. -/
def priority (pkt : Mbuf) : ℕ := pkt.vlanTci / 8192

/-- The packet has an Ethernet header, and a VLAN header if it says so. -/
structure Holds (pkt : Mbuf) : Prop where
  header : 14 ≤ pkt.dataLen
  tag : pkt.tagged = true → 18 ≤ pkt.dataLen

variable {crc} {pkt : Mbuf}

/-! ## The two functions on the list of bytes -/

theorem frame_setFcsPacket (pkt : Mbuf) : (setFcsPacket crc pkt).frame = pkt.frame :=
  load_store_of_disjoint _ _ (.inl (Nat.le_refl _))

/-- The bytes of a packet that is long enough for a VLAN header. -/
theorem frame_split (pkt : Mbuf) (h : 16 ≤ pkt.dataLen) :
    pkt.frame = load pkt.mem pkt.dataOff 12 ++ (load pkt.mem (pkt.dataOff + 12) 2 ++
      (load pkt.mem (pkt.dataOff + 14) 2 ++ load pkt.mem (pkt.dataOff + 16) (pkt.dataLen - 16))) := by
  obtain ⟨k, hk⟩ := Nat.exists_eq_add_of_le h
  rw [frame, hk, show 16 + k = 12 + (2 + (2 + k)) by omega, load_add, load_add, load_add,
    show 12 + (2 + (2 + k)) - 16 = k by omega]

theorem frame_setTci (tag : VlanTag) (h : 16 ≤ pkt.dataLen) :
    (setTci crc tag pkt).frame = load pkt.mem pkt.dataOff 12 ++
      (load pkt.mem (pkt.dataOff + 12) 2 ++ (tciBytes tag.tci ++
        load pkt.mem (pkt.dataOff + 16) (pkt.dataLen - 16))) := by
  have hlen : (tciBytes tag.tci).length = 2 := rfl
  rw [setTci, frame_setFcsPacket]
  refine (frame_split { pkt with mem := store (pkt.dataOff + 14) (tciBytes tag.tci) pkt.mem }
    h).trans ?_
  simp only
  rw [load_store_of_disjoint _ _ (.inl (by omega)), load_store_of_disjoint _ _ (.inl (by omega)),
    load_store_self _ _ _ hlen, load_store_of_disjoint _ _ (.inr (by omega))]

theorem take_frame (h : k ≤ pkt.dataLen) : pkt.frame.take k = load pkt.mem pkt.dataOff k := by
  obtain ⟨j, hj⟩ := Nat.exists_eq_add_of_le h
  rw [frame, hj, take_load]

theorem drop_frame (h : k ≤ pkt.dataLen) :
    pkt.frame.drop k = load pkt.mem (pkt.dataOff + k) (pkt.dataLen - k) := by
  obtain ⟨j, hj⟩ := Nat.exists_eq_add_of_le h
  rw [frame, hj, drop_load, Nat.add_sub_cancel_left]

/-- **What `add_vlan_tag_one` makes of a packet**: behind the addresses there is a tag, and
behind it what was behind the addresses, or behind the old tag. -/
theorem addVlanTagOne_spec (crc : List (BitVec 8) → BitVec 32) (tag : VlanTag) (h : pkt.Holds)
    (hroom : pkt.tagged = false → 4 ≤ pkt.dataOff) :
    ∃ pkt', addVlanTagOne crc tag pkt = (.ok, pkt') ∧
      pkt'.dataLen = pkt.dataLen + (if pkt.tagged then 0 else 4) ∧
      pkt'.frame = pkt.frame.take 12 ++ (vlanTpid ++ (tciBytes tag.tci ++
        pkt.frame.drop (if pkt.tagged then 16 else 12))) := by
  have hheader := h.header
  cases htag : pkt.tagged with
  | true =>
    have hlen := h.tag htag
    refine ⟨setTci crc tag pkt, ?_, rfl, ?_⟩
    · rw [addVlanTagOne, if_pos htag]
    · rw [frame_setTci tag (by omega), take_frame (by omega), of_decide_eq_true htag, if_pos rfl,
        drop_frame (by omega)]
  | false =>
    obtain ⟨off, hoff⟩ := Nat.exists_eq_add_of_le' (hroom htag)
    obtain ⟨len, hlen⟩ := Nat.exists_eq_add_of_le' hheader
    have hdrop : pkt.frame.drop 12 = load pkt.mem (off + 16) 2 ++ load pkt.mem (off + 18) len := by
      rw [drop_frame (by omega), hoff, hlen, show len + 14 - 12 = 2 + len by omega, load_add]
    have hfits : off + (len + 18) < 2 ^ 16 := by
      have := pkt.fits
      omega
    have hsome : pkt.prepend 4 = some ⟨pkt.mem, off, len + 18, hfits⟩ := by
      simp [prepend, hoff, hlen]
    have hmem : (addVlanTagOne crc tag pkt) = (.ok, setTci crc tag ⟨store (off + 12) vlanTpid
        (store (off + 16) (load (move off (off + 4) 14 pkt.mem) (off + 12) 2)
          (move off (off + 4) 14 pkt.mem)), off, len + 18, hfits⟩) := by
      rw [addVlanTagOne, htag, hsome, hoff]
      rfl
    refine ⟨_, hmem, ?_, ?_⟩
    · show len + 18 = pkt.dataLen + 4
      omega
    have htpid : vlanTpid.length = 2 := rfl
    rw [frame_setTci tag (by simp), take_frame (by omega), if_neg (by simp), hdrop, hoff]
    simp only
    congr 1
    · rw [load_store_of_disjoint _ _ (.inl (by omega)),
        load_store_of_disjoint _ _ (.inl (by omega))]
      exact load_move pkt.mem off (off + 4) (i := 0) (by omega)
    rw [load_store_self _ _ _ htpid, show len + 18 - 16 = 2 + len by omega, load_add]
    congr 3
    · rw [load_store_of_disjoint _ _ (.inr (by omega)), load_store_self _ _ _ (length_load ..)]
      exact load_move pkt.mem off (off + 4) (by omega)
    · rw [load_store_of_disjoint _ _ (.inr (by omega)),
        load_store_of_disjoint _ _ (.inr (by rw [length_load])),
        load_move_of_disjoint _ _ (.inr (by omega))]

/-- **What `del_vlan_tag_one` makes of a packet with a tag**: the four bytes behind the
addresses are gone. -/
theorem delVlanTagOne_spec (crc : List (BitVec 8) → BitVec 32) (h : pkt.Holds) (htag : pkt.tagged = true) :
    ∃ pkt', delVlanTagOne crc pkt = (.ok, pkt') ∧
      pkt'.frame = pkt.frame.take 12 ++ pkt.frame.drop 16 := by
  obtain ⟨len, hlen⟩ := Nat.exists_eq_add_of_le' (h.tag htag)
  have hfits : pkt.dataOff + 4 + (len + 14) < 2 ^ 16 := by
    have := pkt.fits
    omega
  have hsome : pkt.adj 4 = some ⟨pkt.mem, pkt.dataOff + 4, len + 14, hfits⟩ := by
    simp [adj, hlen, show 4 ≤ len + 18 by omega, show len + 18 - 4 = len + 14 by omega]
  have hpkt : delVlanTagOne crc pkt = (.ok, setFcsPacket crc ⟨store pkt.dataOff [0, 0, 0, 0]
      (move (pkt.dataOff + 4) pkt.dataOff 4 (move (pkt.dataOff + 4 + 4) (pkt.dataOff + 4) 4
        (move (pkt.dataOff + 4 + 8) (pkt.dataOff + 8) 4 pkt.mem))),
      pkt.dataOff + 4, len + 14, hfits⟩) := by
    rw [delVlanTagOne, if_pos htag, hsome]
  refine ⟨_, hpkt, ?_⟩
  rw [frame_setFcsPacket, take_frame (by omega), drop_frame (by omega), hlen, frame]
  simp only
  generalize pkt.dataOff = off
  have hzero : ([0, 0, 0, 0] : List (BitVec 8)).length = 4 := rfl
  generalize ([0, 0, 0, 0] : List (BitVec 8)) = zeros at hzero ⊢
  rw [show len + 14 = 4 + (4 + (4 + (len + 2))) by omega, load_add, load_add, load_add,
    show load pkt.mem off 12 = _ from load_add pkt.mem off 4 (4 + 4), load_add pkt.mem]
  simp only [List.append_assoc]
  -- each word is read behind the moves that came after its own
  congr 1
  · rw [load_store_of_disjoint _ _ (.inr (by omega))]
    rw [load_move_self, load_move_of_disjoint _ _ (.inl (by omega)),
      load_move_of_disjoint _ _ (.inl (by omega))]
  congr 1
  · rw [load_store_of_disjoint _ _ (.inr (by omega)), load_move_of_disjoint _ _ (.inr (by omega))]
    rw [load_move_self, load_move_of_disjoint _ _ (.inl (by omega))]
  congr 1
  · rw [load_store_of_disjoint _ _ (.inr (by omega)), load_move_of_disjoint _ _ (.inr (by omega)),
      load_move_of_disjoint _ _ (.inr (by omega))]
    exact load_move_self ..
  · rw [load_store_of_disjoint _ _ (.inr (by omega)), load_move_of_disjoint _ _ (.inr (by omega)),
      load_move_of_disjoint _ _ (.inr (by omega)), load_move_of_disjoint _ _ (.inr (by omega)),
      show len + 18 - 16 = len + 2 by omega]

theorem delVlanTagOne_of_not_tagged (htag : pkt.tagged = false) :
    delVlanTagOne crc pkt = (.ok, pkt) := by
  rw [delVlanTagOne, htag]
  rfl

/-! ## Tags -/

/-- The attribute adds a tag, with a VLAN id and a priority that are in range. -/
structure AddsTag (a : PortAttrs) : Prop where
  ops : a.ops = .addVlan
  vid : 0 ≤ a.vlantag.vid ∧ a.vlantag.vid < 4096
  pcp : 0 ≤ a.vlantag.pcp ∧ a.vlantag.pcp < 8

/-- The pieces of a packet whose bytes are known. -/
theorem load_of_frame (hlen : 16 ≤ pkt.dataLen) {type tci : List (BitVec 8)}
    (haddrs : addrs.length = 12) (htype : type.length = 2) (htci : tci.length = 2)
    (h : pkt.frame = addrs ++ (type ++ (tci ++ rest))) :
    load pkt.mem (pkt.dataOff + 12) 2 = type ∧ load pkt.mem (pkt.dataOff + 14) 2 = tci := by
  rw [frame_split _ hlen] at h
  obtain ⟨-, h⟩ := List.append_inj h (by simp [haddrs])
  obtain ⟨hload, h⟩ := List.append_inj h (by simp [htype])
  exact ⟨hload, List.append_inj_left h (by simp [htci])⟩

/-- The bytes of a number that is kept swapped, put together again. -/
theorem toNat_tciBytes {n : ℤ} (hn : 0 ≤ n) (hn' : n < 65536) :
    (((tciBytes (cpuToBe16 n)).getD 0 0).toNat * 256 +
      ((tciBytes (cpuToBe16 n)).getD 1 0).toNat : ℕ) = n := by
  have hpow : ((2 ^ 8 : ℕ) : ℤ) = 256 := rfl
  obtain ⟨hi, lo, rfl, hlo⟩ : ∃ hi lo, n = hi * 256 + lo ∧ 0 ≤ lo ∧ lo < 256 :=
    ⟨n / 256, n % 256, by omega, by omega, by omega⟩
  have hswap : cpuToBe16 (hi * 256 + lo) = lo * 256 + hi := by
    rw [cpuToBe16, Int.emod_eq_of_lt hn hn']
    omega
  have hfirst : (lo * 256 + hi) % 256 = hi := by omega
  have hsecond : (lo * 256 + hi) / 256 % 256 = lo := by omega
  simp only [tciBytes, hswap, List.getD_cons_zero, List.getD_cons_succ, BitVec.toNat_ofInt, hpow,
    hfirst, hsecond]
  omega

/-- The tag control information of an attribute, read from the packet. -/
theorem vlanTci_of_load {a : PortAttrs} (ha : AddsTag a)
    (h : load pkt.mem (pkt.dataOff + 14) 2 = tciBytes a.withTci.vlantag.tci) :
    (pkt.vlanTci : ℤ) = a.vlantag.pcp * 8192 + a.vlantag.vid := by
  obtain ⟨hvid, hvid'⟩ := ha.vid
  obtain ⟨hpcp, hpcp'⟩ := ha.pcp
  have htci : a.withTci.vlantag.tci = cpuToBe16 (a.vlantag.pcp * 8192 + a.vlantag.vid) := by
    rw [PortAttrs.withTci, ha.ops]
    show cpuToBe16 (calcTci _ _) = _
    rw [calcTci, Int.emod_eq_of_lt hpcp hpcp', Int.emod_eq_of_lt hvid hvid']
  have hread : pkt.vlanTci = ((load pkt.mem (pkt.dataOff + 14) 2).getD 0 0).toNat * 256 +
      ((load pkt.mem (pkt.dataOff + 14) 2).getD 1 0).toNat := rfl
  rw [hread, h, htci]
  exact toNat_tciBytes (by omega) (by omega)

/-- What is behind a tag that has just been added. -/
theorem tagged_of_added {tag : VlanTag} (haddrs : addrs.length = 12)
    (hlen : 18 ≤ pkt.dataLen) (h : pkt.frame = addrs ++ (vlanTpid ++ (tciBytes tag.tci ++ rest))) :
    pkt.tagged = true ∧ pkt.Holds ∧ load pkt.mem (pkt.dataOff + 14) 2 = tciBytes tag.tci := by
  obtain ⟨htype, htci⟩ := load_of_frame (by omega) haddrs rfl rfl h
  exact ⟨decide_eq_true htype, ⟨by omega, fun _ => hlen⟩, htci⟩

/-- **The algebra of tags**, for every packet that holds its headers and has room for one
more.  A tag that is added can be read; nothing else is changed, and the packet grows exactly
if it had no tag; deleting the tag again gives back a packet that had none; a second addition
takes the place of the first; and deleting takes away the four bytes of the tag, or
nothing. -/
theorem tag_laws (crc : List (BitVec 8) → BitVec 32) {a : PortAttrs} (ha : AddsTag a)
    (b : PortAttrs) (pkt : Mbuf) (h : pkt.Holds) (hroom : pkt.tagged = false → 4 ≤ pkt.dataOff) :
    (∃ pkt₁, addVlanTagOne crc a.withTci.vlantag pkt = (.ok, pkt₁) ∧
      ((pkt₁.getVid : ℤ) = a.vlantag.vid ∧ (pkt₁.priority : ℤ) = a.vlantag.pcp) ∧
      (pkt₁.frame.take 12 = pkt.frame.take 12 ∧
        pkt₁.frame.drop 16 = pkt.frame.drop (if pkt.tagged then 16 else 12) ∧
        pkt₁.frame.length = pkt.frame.length + (if pkt.tagged then 0 else 4)) ∧
      (pkt.tagged = false →
        ∃ pkt₂, delVlanTagOne crc pkt₁ = (.ok, pkt₂) ∧ pkt₂.frame = pkt.frame) ∧
      ∃ pkt₂ pkt₃, addVlanTagOne crc b.withTci.vlantag pkt₁ = (.ok, pkt₂) ∧
        addVlanTagOne crc b.withTci.vlantag pkt = (.ok, pkt₃) ∧ pkt₂.frame = pkt₃.frame) ∧
    (pkt.tagged = true → ∃ pkt₂, delVlanTagOne crc pkt = (.ok, pkt₂) ∧
      pkt₂.frame = pkt.frame.take 12 ++ pkt.frame.drop 16) ∧
    (pkt.tagged = false → delVlanTagOne crc pkt = (.ok, pkt)) := by
  have hheader := h.header
  have haddrs : (pkt.frame.take 12).length = 12 := by
    rw [take_frame (by omega), length_load]
  have hpieces (tci : ℤ) : (vlanTpid ++ tciBytes tci).length = 4 := rfl
  refine ⟨?_, fun htag => delVlanTagOne_spec crc h htag, fun htag => delVlanTagOne_of_not_tagged htag⟩
  obtain ⟨pkt₁, hadd, hlen, hframe⟩ := addVlanTagOne_spec crc a.withTci.vlantag h hroom
  have hlen₁ : 18 ≤ pkt₁.dataLen := by
    rw [hlen]
    split
    · rename_i htag
      exact h.tag htag
    · omega
  obtain ⟨htag₁, hholds₁, htci⟩ := tagged_of_added haddrs hlen₁ hframe
  have htake : pkt₁.frame.take 12 = pkt.frame.take 12 := by
    rw [hframe, List.take_left' haddrs]
  have hdrop : pkt₁.frame.drop 16 = pkt.frame.drop (if pkt.tagged then 16 else 12) := by
    rw [hframe, ← List.append_assoc, ← List.append_assoc, List.drop_left']
    rw [List.append_assoc, List.length_append, haddrs, hpieces]
  have hvlanTci := vlanTci_of_load ha htci
  obtain ⟨hvid, hvid'⟩ := ha.vid
  refine ⟨pkt₁, hadd, ⟨?_, ?_⟩, ⟨htake, hdrop, ?_⟩, fun hbare => ?_, ?_⟩
  · rw [getVid, if_pos htag₁]
    omega
  · rw [priority]
    omega
  · rw [frame, frame, length_load, length_load, hlen]
  · obtain ⟨pkt₂, hdel, hframe₂⟩ := delVlanTagOne_spec crc hholds₁ htag₁
    refine ⟨pkt₂, hdel, ?_⟩
    rw [hframe₂, htake, hdrop, hbare]
    exact List.take_append_drop 12 pkt.frame
  · obtain ⟨pkt₂, hadd₂, -, hframe₂⟩ := addVlanTagOne_spec crc b.withTci.vlantag hholds₁
      fun hbare => absurd (htag₁.symm.trans hbare) (by decide)
    obtain ⟨pkt₃, hadd₃, -, hframe₃⟩ := addVlanTagOne_spec crc b.withTci.vlantag h hroom
    refine ⟨pkt₂, pkt₃, hadd₂, hadd₃, ?_⟩
    rw [hframe₂, hframe₃, htake, htag₁, if_pos rfl, hdrop]

/-- A packet of sixty zero bytes, with the headroom of a fresh mbuf. -/
def zeroPacket : Mbuf := ⟨fun _ => 0, 128, 60, by decide⟩

theorem tag_laws_zeroPacket :
    ∃ pkt₁, addVlanTagOne (fun _ => 0) (PortAttrs.withTci ⟨.addVlan, .rx, ⟨10, 3, 0⟩⟩).vlantag
        zeroPacket = (.ok, pkt₁) ∧ (pkt₁.getVid : ℤ) = 10 ∧ (pkt₁.priority : ℤ) = 3 ∧
      ∃ pkt₂, delVlanTagOne (fun _ => 0) pkt₁ = (.ok, pkt₂) ∧ pkt₂.frame = zeroPacket.frame := by
  have hbare : zeroPacket.tagged = false := by decide
  have ha : AddsTag ⟨.addVlan, .rx, ⟨10, 3, 0⟩⟩ := ⟨rfl, by decide, by decide⟩
  have hholds : zeroPacket.Holds :=
    ⟨by decide, fun htag => absurd (htag.symm.trans hbare) (by decide)⟩
  obtain ⟨⟨pkt₁, hadd, ⟨hvid, hpcp⟩, -, hdel, -⟩, -⟩ :=
    tag_laws (fun _ => 0) ha .zero zeroPacket hholds (fun _ => by decide)
  exact ⟨pkt₁, hadd, hvid, hpcp, hdel hbare⟩

/-! ## The packets of the bursts -/

/-- The bytes of an address. -/
def addrBytes (a : BitVec 48) : List (BitVec 8) :=
  [a.extractLsb' 0 8, a.extractLsb' 8 8, a.extractLsb' 16 8, a.extractLsb' 24 8,
    a.extractLsb' 32 8, a.extractLsb' 40 8]

/-- The addresses of a packet. -/
def addrsBytes (f : Frame) : List (BitVec 8) := addrBytes f.dAddr ++ addrBytes f.sAddr

/-- The bytes of a packet. -/
def bytesOf (f : Frame) : List (BitVec 8) := addrsBytes f ++ (be16 f.etherType ++ f.payload)

theorem take_bytesOf (f : Frame) : (bytesOf f).take 12 = addrsBytes f := rfl

theorem drop_bytesOf (f : Frame) : (bytesOf f).drop 12 = be16 f.etherType ++ f.payload := rfl

theorem drop_bytesOf_tag (f : Frame) : (bytesOf f).drop 16 = f.payload.drop 2 := rfl

theorem be16_injective {m n : BitVec 16} (h : be16 m = be16 n) : m = n := by
  rw [← Frame.append_be16 m, h, Frame.append_be16]

section

variable {f : Frame} (h : pkt.Holds) (hbytes : pkt.frame = bytesOf f)

include h hbytes

theorem tagged_eq : pkt.tagged = f.tagged := by
  have hheader := h.header
  obtain ⟨len, hlen⟩ := Nat.exists_eq_add_of_le' hheader
  have hdrop : pkt.frame.drop 12 = be16 f.etherType ++ f.payload := by
    rw [hbytes, drop_bytesOf]
  rw [drop_frame (by omega), hlen, show len + 14 - 12 = 2 + len by omega, load_add] at hdrop
  have hload : load pkt.mem (pkt.dataOff + 12) 2 = be16 f.etherType :=
    List.append_inj_left hdrop (by rw [length_load]; rfl)
  rw [tagged, hload, Frame.tagged, decide_eq_decide]
  exact ⟨be16_injective, fun htype => by rw [htype]; rfl⟩

/-- `Frame.addTag` is what `add_vlan_tag_one` does. -/
theorem bytes_addTag (crc : List (BitVec 8) → BitVec 32) (tag : VlanTag)
    (hroom : pkt.tagged = false → 4 ≤ pkt.dataOff) :
    ∃ pkt', addVlanTagOne crc tag pkt = (.ok, pkt') ∧ pkt'.frame = bytesOf (f.addTag tag.tci) := by
  obtain ⟨pkt', hadd, -, hframe⟩ := addVlanTagOne_spec crc tag h hroom
  refine ⟨pkt', hadd, ?_⟩
  rw [hframe, hbytes, take_bytesOf, tagged_eq h hbytes, Frame.addTag]
  cases htag : f.tagged with
  | true =>
    have htype : f.etherType = etherTypeVlan := of_decide_eq_true htag
    rw [if_pos rfl, if_pos rfl, drop_bytesOf_tag, bytesOf, htype]
    rfl
  | false =>
    rw [if_neg (by simp), if_neg (by simp), drop_bytesOf]
    rfl

/-- `Frame.delTag` is what `del_vlan_tag_one` does. -/
theorem bytes_delTag (crc : List (BitVec 8) → BitVec 32) :
    ∃ pkt', delVlanTagOne crc pkt = (.ok, pkt') ∧ pkt'.frame = bytesOf f.delTag := by
  have htagged := tagged_eq h hbytes
  cases htag : f.tagged with
  | true =>
    rw [htag] at htagged
    have hlen : 4 ≤ f.payload.length := by
      have hframe := congrArg List.length hbytes
      have hlong := h.tag htagged
      have hbytesOf : (bytesOf f).length = 14 + f.payload.length := by
        simp only [bytesOf, addrsBytes, addrBytes, be16, List.length_append, List.length_cons,
          List.length_nil]
        omega
      rw [frame, length_load, hbytesOf] at hframe
      omega
    obtain ⟨pkt', hdel, hframe⟩ := delVlanTagOne_spec crc h htagged
    refine ⟨pkt', hdel, ?_⟩
    rw [hframe, hbytes, take_bytesOf, drop_bytesOf_tag, ← Frame.be16_ethProto hlen, Frame.delTag,
      if_pos htag]
    rfl
  | false =>
    rw [htag] at htagged
    exact ⟨pkt, delVlanTagOne_of_not_tagged htagged, by rw [hbytes, Frame.delTag_of_not_tagged htag]⟩

end

/-- A packet of sixty bytes that are zero but for its type. -/
def typedPacket (type : BitVec 16) : Mbuf :=
  ⟨store 140 (be16 type) fun _ => 0, 128, 60, by decide⟩

theorem bytes_addTag_typed : ∃ pkt', addVlanTagOne (fun _ => 0) ⟨10, 3, 0x600a⟩
      (typedPacket 0x0800) = (.ok, pkt') ∧
    pkt'.frame = bytesOf (Frame.addTag 0x600a ⟨0, 0, 0x0800, .replicate 46 0⟩) :=
  bytes_addTag ⟨by decide, by decide⟩ (by decide) _ _ fun _ => by decide

theorem bytes_delTag_typed : ∃ pkt', delVlanTagOne (fun _ => 0) (typedPacket 0x8100) = (.ok, pkt') ∧
    pkt'.frame = bytesOf (Frame.delTag ⟨0, 0, 0x8100, .replicate 46 0⟩) :=
  bytes_delTag ⟨by decide, by decide⟩ (by decide) _

end Mbuf
end SoftPatchPanel.Vf
