import SoftPatchPanel.Primary.Ports
import SoftPatchPanel.Shared.JsonHelper

/-!
# Device names

A virtual device gets its name from the type and the number of the port it is made for:
`eth_vhost3` for `vhost:3`.  A process that starts later finds the devices by their ethdev
ids, asks for their names and reads type and number back with `parse_dev_name`.

The two sides do not fit for all types.

* The buffers of the formatters have room for three digits; a longer number is cut off.
* A pcap device is called `eth_pcap`, while the parser knows `net_pcap` only, and takes
  what it does not know for a physical port.
* A ring device is called after the ring, whose name has a prefix of its own:
  `net_ring_eth_ring3`.  The parser expects the number right behind `net_ring`, finds
  none there, and takes every ring for ring 0.

`devName_identifies_iff` says that this is all.
-/

namespace SoftPatchPanel.Shared

open Worker (Fault PortType)

/-! ## The formatters -/

/-- `get_rx_queue_name`. -/
def getRxQueueName : ℤ → CString := numberedName "eth_ring"

/-- `get_vhost_backend_name`. -/
def getVhostBackendName : ℤ → CString := numberedName "eth_vhost"

/-- `get_pcap_pmd_name`. -/
def getPcapPmdName : ℤ → CString := numberedName "eth_pcap"

/-- `get_memif_pmd_name`. -/
def getMemifPmdName : ℤ → CString := numberedName "net_memif"

/-- `get_null_pmd_name`. -/
def getNullPmdName : ℤ → CString := numberedName "eth_null"

/-- The types of the ports that `add` makes a device for. -/
inductive VdevType where
  | ring | vhost | pcap | memif | nullpmd | pipe
  deriving DecidableEq, Repr

/-- The type as the processes have it. -/
def VdevType.portType : VdevType → PortType
  | .ring => .ring
  | .vhost => .vhost
  | .pcap => .pcap
  | .memif => .memif
  | .nullpmd => .nullpmd
  | .pipe => .pipe

/-- The name of the ethdev that `add` makes for a port.  That of a ring is
`rte_eth_from_ring`'s, which puts a prefix in front of the name of the ring. -/
def devName : VdevType → ℤ → CString
  | .ring, id => "net_ring_" ++ getRxQueueName id
  | .vhost, id => getVhostBackendName id
  | .pcap, id => getPcapPmdName id
  | .memif, id => getMemifPmdName id
  | .nullpmd, id => getNullPmdName id
  | .pipe, id => Primary.getPipePmdName id

/-! ## The parser -/

/-- The prefixes that `parse_dev_name` looks for, in its order. -/
def vdevPrefixes : List (CString × PortType) :=
  [("eth_ring", .ring), ("net_ring", .ring), ("eth_vhost", .vhost),
    ("net_vhost", .vhost), ("net_pcap", .pcap), ("eth_tap", .tap),
    ("net_tap", .tap), ("net_memif", .memif), ("eth_null", .nullpmd),
    ("spp_pipe", .pipe)]

/-- What `strtol` leaves when it is through with white space, sign and decimal digits. -/
def behindNumeral (s : CString) : CString :=
  match s.dropWhile CString.isSpace with
  | '-' :: t | '+' :: t => t.dropWhile (CString.isDigitOf 10)
  | t => t.dropWhile (CString.isDigitOf 10)

/-- The number behind the prefix.  It is copied to `pid_str[12]` first, without a
terminator if it has twelve characters; `strtol` then must not get to the end. -/
def parsePid (pid : CString) : Except Fault ℤ :=
  if 12 < pid.length ∨ (pid.length = 12 ∧ behindNumeral pid = []) then .error .undefined
  else .ok (CString.intOfLong (strtolOrZero pid).1)

/-- `parse_dev_name`. -/
def parseDevName (devName : CString) : Except Fault (PortType × ℤ) :=
  match vdevPrefixes.find? fun p => p.1.isPrefixOf devName with
  | some (word, type) => (parsePid (devName.drop word.length)).map fun id => (type, id)
  | none => .ok (.phy, 0)

/-! ## What is read back -/

theorem numberedName_eq (word : CString) (id : ℤ) :
    numberedName word id = word ++ (uintText (id % 2 ^ 32).toNat).take 3 := by
  rw [numberedName, List.take_append, List.take_of_length_le (Nat.le_add_right _ _),
    Nat.add_sub_cancel_left]
  rfl

/-- The first three digits of a number are the digits of a number. -/
theorem take_toDigits (m : ℕ) :
    ∃ v < 1000, (Nat.toDigits 10 m).take 3 = Nat.toDigits 10 v ∧ (m < 1000 → v = m) := by
  induction m using Nat.strongRecOn with
  | ind m ih =>
    rcases Nat.lt_or_ge m 1000 with hlt | hge
    · have hlen : (Nat.toDigits 10 m).length ≤ 3 :=
        (Nat.length_toDigits_le_iff (by decide) (by decide)).mpr hlt
      exact ⟨m, hlt, List.take_of_length_le hlen, fun _ => rfl⟩
    obtain ⟨v, hv, htake, -⟩ := ih (m / 10) (Nat.div_lt_self (by omega) (by decide))
    have hlen : ¬ (Nat.toDigits 10 (m / 10)).length ≤ 2 := by
      rw [Nat.length_toDigits_le_iff (by decide) (by decide)]
      omega
    refine ⟨v, hv, ?_, fun hlt => absurd hlt (Nat.not_lt.mpr hge)⟩
    rwa [Nat.toDigits_of_base_le (by decide) (by omega), List.take_append_of_le_length (by omega)]

variable {n : ℕ}

theorem parsePid_uintText (hn : n < 1000) : parsePid (uintText n) = .ok (n : ℤ) := by
  have hlen : (uintText n).length ≤ 3 := length_uintText_le (by decide) hn
  have hval : CString.value 10 (uintText n) = some ((n : ℤ), []) := by
    have h := CString.value_toDigits (.inr rfl) n CString.ends_nil
    rwa [List.append_nil] at h
  have hstr := CString.strtol_of_value hval (by omega) (by omega)
  rw [parsePid, if_neg (by omega), strtolOrZero]
  obtain ⟨⟨k, rest⟩, hk, heq⟩ := Option.map_eq_some_iff.mp hstr
  rw [hk]
  exact congrArg Except.ok (Prod.mk.inj heq).1

/-- In a ring's name the number does not follow the prefix, and is taken to be zero. -/
theorem parsePid_ring (hn : n < 1000) : parsePid ("_eth_ring" ++ uintText n) = .ok 0 := by
  have hlen : (uintText n).length ≤ 3 := length_uintText_le (by decide) hn
  have hword : ("_eth_ring" ++ uintText n).length = 9 + (uintText n).length :=
    List.length_append
  have hne : behindNumeral ("_eth_ring" ++ uintText n) ≠ [] := List.cons_ne_nil _ _
  have hfits : ¬(12 < ("_eth_ring" ++ uintText n).length ∨
      ("_eth_ring" ++ uintText n).length = 12 ∧
        behindNumeral ("_eth_ring" ++ uintText n) = []) := by
    rintro (hlong | ⟨-, hnil⟩)
    · omega
    · exact hne hnil
  rw [parsePid, if_neg hfits]
  rfl

/-- The numbers for which the name of the device is read back. -/
def ReadsBack : VdevType → ℤ → Prop
  | .pcap, _ => False
  | .ring, id => id = 0
  | _, id => 0 ≤ id ∧ id < 1000

/-- The word in the names of a type. -/
def VdevType.word : VdevType → CString
  | .ring => "net_ring_eth_ring"
  | .vhost => "eth_vhost"
  | .pcap => "eth_pcap"
  | .memif => "net_memif"
  | .nullpmd => "eth_null"
  | .pipe => "spp_pipe"

theorem devName_eq (t : VdevType) (id : ℤ) :
    devName t id = t.word ++ (uintText (id % 2 ^ 32).toNat).take 3 := by
  cases t with
  | ring =>
    show "net_ring_" ++ numberedName "eth_ring" id = _
    rw [numberedName_eq, ← List.append_assoc]
    exact congrArg (· ++ _) (by decide : "net_ring_".toList ++ "eth_ring".toList = _)
  | vhost | pcap | memif | nullpmd | pipe => exact numberedName_eq _ id

/-- The number that a name shows is the one it is made for, if that has at most three
digits. -/
theorem devName_spec (t : VdevType) (id : ℤ) :
    ∃ v < 1000, devName t id = t.word ++ uintText v ∧ (0 ≤ id ∧ id < 1000 → (v : ℤ) = id) := by
  obtain ⟨v, hv, htake, hsame⟩ := take_toDigits (id % 2 ^ 32).toNat
  refine ⟨v, hv, ?_, fun hid => ?_⟩
  · rw [devName_eq, uintText, htake, uintText]
  have hmod : id % 2 ^ 32 = id := Int.emod_eq_of_lt hid.1 (by omega)
  rw [hmod] at hsame
  have heq := hsame (by omega)
  omega

/-- What the parser makes of the word in the names of a type. -/
theorem parseDevName_word (t : VdevType) (pid : CString) :
    parseDevName (t.word ++ pid) =
      match t with
      | .ring => (parsePid ("_eth_ring" ++ pid)).map fun id => (.ring, id)
      | .pcap => .ok (.phy, 0)
      | t => (parsePid pid).map fun id => (t.portType, id) := by
  cases t with
  | ring | vhost | pcap | memif | nullpmd | pipe => rfl

theorem parseDevName_devName_iff (t : VdevType) (id : ℤ) :
    parseDevName (devName t id) = .ok (t.portType, id) ↔ ReadsBack t id := by
  obtain ⟨v, hv, hname, hsame⟩ := devName_spec t id
  rw [hname, parseDevName_word]
  have hnumber (type : PortType) : (parsePid (uintText v)).map (fun id => (type, id)) =
      .ok (type, id) ↔ 0 ≤ id ∧ id < 1000 := by
    rw [parsePid_uintText hv]
    constructor
    · intro h
      have hid : (v : ℤ) = id := (Prod.mk.inj (Except.ok.inj h)).2
      omega
    · intro h
      exact congrArg (fun k => Except.ok (type, k)) (hsame h)
  cases t with
  | ring =>
    show (parsePid ("_eth_ring" ++ uintText v)).map (fun id => (PortType.ring, id)) =
      .ok (.ring, id) ↔ id = 0
    rw [parsePid_ring hv]
    constructor
    · intro h
      exact (Prod.mk.inj (Except.ok.inj h)).2.symm
    · rintro rfl
      rfl
  | pcap =>
    show Except.ok (PortType.phy, (0 : ℤ)) = .ok (.pcap, id) ↔ False
    exact iff_of_false (fun h => by cases h) not_false
  | vhost | memif | nullpmd | pipe => exact hnumber _

/-- Numbers of up to three digits give different names. -/
theorem injOn_devName (t : VdevType) : Set.InjOn (devName t) {id | 0 ≤ id ∧ id < 1000} := by
  intro id hid id' hid' heq
  obtain ⟨v, -, hname, hsame⟩ := devName_spec t id
  obtain ⟨v', -, hname', hsame'⟩ := devName_spec t id'
  have hdigits : Nat.toDigits 10 v = Nat.toDigits 10 v' :=
    List.append_cancel_left (hname.symm.trans (heq.trans hname'))
  have hvv : v = v' := by
    rw [← CString.digitsVal_toDigits v, hdigits, CString.digitsVal_toDigits]
  rw [← hsame hid, ← hsame' hid', hvv]

/-- **Device names identify ports.**  Numbers of up to three digits have different names;
and for any set of numbers, different numbers have different names that are read back as
type and number, if and only if the type is not pcap, the numbers have up to three digits
and, for rings, no number but zero is in the set. -/
theorem devName_identifies_iff (t : VdevType) :
    Set.InjOn (devName t) {id | 0 ≤ id ∧ id < 1000} ∧
    ∀ S : Set ℤ, (Set.InjOn (devName t) S ∧
        ∀ id ∈ S, parseDevName (devName t id) = .ok (t.portType, id)) ↔
      ∀ id ∈ S, ReadsBack t id := by
  refine ⟨injOn_devName t, fun S => ⟨?_, fun hall => ?_⟩⟩
  · rintro ⟨-, hall⟩ id hid
    exact (parseDevName_devName_iff t id).mp (hall id hid)
  · have hread (id : ℤ) (hid : id ∈ S) := (parseDevName_devName_iff t id).mpr (hall id hid)
    refine ⟨fun id hid id' hid' heq => ?_, hread⟩
    have h := (hread id hid).symm.trans ((congrArg parseDevName heq).trans (hread id' hid'))
    exact (Prod.mk.inj (Except.ok.inj h)).2

/-- **Names that are not read back**: `add ring:1` is accepted, and the name of its device
is read as that of ring 0; that of `pcap:0` is read as that of a physical port. -/
theorem not_devName_identifies_ring :
    parseResourceUid (some "ring:1") = .ok ⟨.ok, some "ring", some 1, some 0⟩ ∧
      devName .ring 1 = "net_ring_eth_ring1" ∧
      parseDevName (devName .ring 1) = .ok (.ring, 0) ∧
      parseDevName (devName .pcap 0) = .ok (.phy, 0) ∧
      devName .vhost 100 = devName .vhost 1000 := by
  decide

end SoftPatchPanel.Shared
